import Antiproton.Runtime.Redact

/-!
# Antiproton.Runtime.RedactBody

What the box reads of a redacted JSON answer. Two readers go through the text, one over what `JSON.stringify` wrote and one
over what the second pass left of it. Between two markers they are at the same place, or one is inside a string and the other
outside; either way nothing is spelled that was not there, as long as no run ends inside an escape sequence.

* `parts_clean`: what the second pass leaves spells no form.
* `wholeEscapes_of_plain`: secrets without backslashes end outside the escape sequences.
* `redacted_complete`: `redact` is complete, and so is `redactBody` where no run ends inside an escape sequence.
* `cut_escape_leaks`: where one does, what follows it may read as a secret.
-/

namespace Antiproton.Redact

open Js Runs

/-- No run of covered characters ends inside an escape sequence of a JSON text. -/
def WholeEscapes (secrets : List Str) (text : Str) : Prop :=
  ∀ i, Covered secrets text i → ¬Covered secrets text (i + 1) → (Scan.outside.run (text.take (i + 1))).Whole

/-! ## The second pass -/

/-- One reader is inside a string and the other outside. -/
def Opposed (a b : Scan) : Prop := a = .inside ∧ b = .outside ∨ a = .outside ∧ b = .inside

theorem Opposed.next {a b : Scan} (h : Opposed a b) {u : UInt16} (ha : a.next u ≠ .broken) (hb : b.next u ≠ .broken) :
    Opposed (a.next u) (b.next u) ∧ (a.gives u = [none] ∨ a.gives u = [some u]) := by
  by_cases hq : u = unit '"'
  · subst hq
    rcases h with ⟨rfl, rfl⟩ | ⟨rfl, rfl⟩
    · exact ⟨.inr ⟨by decide, by decide⟩, .inl (by decide)⟩
    · exact ⟨.inl ⟨by decide, by decide⟩, .inl (by decide)⟩
  · have hslash : u ≠ unit '\\' := by
      rintro rfl
      rcases h with ⟨rfl, rfl⟩ | ⟨rfl, rfl⟩
      · exact hb (by decide)
      · exact ha (by decide)
    have hinside : Scan.inside.next u ≠ .broken → Scan.inside.next u = .inside := by
      intro hne
      simp only [Scan.next, if_neg hq, if_neg hslash] at hne ⊢
      split at hne
      · exact absurd rfl hne
      · next hc => rw [if_neg hc]
    have houtside : Scan.outside.next u = .outside := by simp only [Scan.next, if_neg hq, if_neg hslash]
    rcases h with ⟨rfl, rfl⟩ | ⟨rfl, rfl⟩
    · refine ⟨.inl ⟨hinside ha, houtside⟩, .inr ?_⟩
      simp only [Scan.gives, if_neg hq, if_neg hslash]
    · exact ⟨.inr ⟨houtside, hinside hb⟩, .inl rfl⟩

theorem next_ne_broken {a : Scan} {u : UInt16} {s : Str} (h : a.run (u :: s) ≠ .broken) :
    a.next u ≠ .broken ∧ (a.next u).run s ≠ .broken :=
  ⟨Scan.run_left (s := [u]) h, h⟩

/-- What one of two opposed readers spells in one go is in the text as it stands. -/
theorem Opposed.spelled {t : Str} {a b : Scan} (h : Opposed a b) (ha : a.run t ≠ .broken) (hb : b.run t ≠ .broken) :
    (∀ g : Str, g.map some <+: a.units t → g <+: t) ∧ ∀ g : Str, g ≠ [] → g.map some <:+: a.units t → g <:+: t := by
  induction t generalizing a b with
  | nil =>
    refine ⟨fun g hg => ?_, fun g hne hg => absurd (List.infix_nil.1 hg) (map_some_ne_nil hne)⟩
    rw [List.map_eq_nil_iff.1 (List.prefix_nil.1 hg)]
  | cons u t ih =>
    obtain ⟨hau, hat⟩ := next_ne_broken ha
    obtain ⟨hbu, hbt⟩ := next_ne_broken hb
    obtain ⟨hnext, hgives⟩ := h.next hau hbu
    obtain ⟨hpre, hmid⟩ := ih hnext hat hbt
    have hhead : ∀ g : Str, g.map some <+: a.units (u :: t) → g <+: u :: t := by
      intro g hg
      rw [Scan.units_cons] at hg
      cases g with
      | nil => exact List.nil_prefix
      | cons v g =>
        rcases hgives with hnone | hsome
        · rw [hnone, List.singleton_append, List.map_cons, List.cons_prefix_cons] at hg
          cases hg.1
        · rw [hsome, List.singleton_append, List.map_cons, List.cons_prefix_cons] at hg
          obtain ⟨huv, hg⟩ := hg
          rw [Option.some.inj huv, List.cons_prefix_cons]
          exact ⟨rfl, hpre g hg⟩
    refine ⟨hhead, fun g hne hg => ?_⟩
    obtain ⟨o, ho⟩ : ∃ o, a.gives u = [o] := by
      rcases hgives with h | h
      · exact ⟨_, h⟩
      · exact ⟨_, h⟩
    have hunits : a.units (u :: t) = o :: (a.next u).units t := by rw [Scan.units_cons, ho, List.singleton_append]
    rw [hunits] at hg hhead
    rcases List.infix_cons_iff.1 hg with hg | hg
    · exact (hhead g hg).isInfix
    · exact (hmid g hne hg).trans (List.suffix_cons ..).isInfix

/-- The marker ends a text read inside an escape sequence; elsewhere it leaves the reader where it was. -/
theorem marker_read {a : Scan} (h : a.run REDACTED ≠ .broken) {g : Str} (hfree : ∀ u ∈ REDACTED, u ∉ g) :
    a.Whole ∧ a.run REDACTED = a ∧ a.units REDACTED ≠ [] ∧ ∀ o ∈ a.units REDACTED, o ∉ g.map some := by
  have hfirst : ∀ {a : Scan}, a.next (unit '[') = .broken → a.run REDACTED = .broken := by
    intro a ha
    have hcons : REDACTED = unit '[' :: js "redacted]" := by decide
    rw [hcons, Scan.run_cons, ha, Scan.run_broken]
  cases a with
  | outside =>
    have hunquoted : Unquoted REDACTED := by decide
    obtain ⟨hrun, hunits⟩ := Scan.outside_plain hunquoted
    refine ⟨.inl rfl, hrun, by rw [hunits]; decide, ?_⟩
    intro o ho
    rw [hunits] at ho
    obtain ⟨_, -, rfl⟩ := List.mem_map.1 ho
    exact none_apart _ (List.mem_singleton_self _)
  | inside =>
    have hrun : Scan.inside.run REDACTED = .inside := by decide
    have hunits : Scan.inside.units REDACTED = REDACTED.map some := by decide
    refine ⟨.inr rfl, hrun, by rw [hunits]; decide, ?_⟩
    intro o ho hmem
    rw [hunits] at ho
    obtain ⟨u, hu, rfl⟩ := List.mem_map.1 ho
    obtain ⟨v, hv, heq⟩ := List.mem_map.1 hmem
    rw [Option.some.inj heq] at hv
    exact hfree u hu hv
  | slash => exact absurd (hfirst (by decide)) h
  | hex left value =>
    have hhex : hexOf (unit '[') = none := by decide
    exact absurd (hfirst (by simp only [Scan.next, hhex])) h
  | broken => exact absurd (Scan.run_broken _) h

section SecondPass

variable {secrets : List Str} {text g : Str}

/-- A stretch without covered characters spells no form, whatever reader comes to it. -/
theorem stretch_clean (hg : IsForm secrets g) {done first more : Str} (htext : text = done ++ (first ++ more)) {a : Scan}
    (ha : a.Whole) (hb : (Scan.outside.run done).Whole)
    (hclear : ∀ i, done.length ≤ i → i < done.length + first.length → ¬Covered secrets text i)
    (hrun : Scan.outside.run text ≠ .broken) (harun : a.run first ≠ .broken)
    (hclean : ¬g.map some <:+: Scan.outside.units text) : ¬g.map some <:+: a.units first := by
  intro h
  have hor : a = Scan.outside.run done ∨ Opposed a (Scan.outside.run done) := by
    rcases ha with ha | ha <;> rcases hb with hb | hb <;> rw [ha, hb]
    · exact .inl rfl
    · exact .inr (.inr ⟨rfl, rfl⟩)
    · exact .inr (.inl ⟨rfl, rfl⟩)
    · exact .inl rfl
  rcases hor with rfl | hopposed
  · refine hclean (h.trans ?_)
    rw [htext, Scan.units_append, Scan.units_append]
    exact ⟨_, _, List.append_assoc ..⟩
  · have hbrun : (Scan.outside.run done).run first ≠ .broken := by
      rw [htext, Scan.run_append] at hrun
      exact Scan.run_left hrun
    have hin := (hopposed.spelled harun hbrun).2 g hg.ne_nil h
    obtain ⟨pre, post, heq, hnot⟩ := infix_stretch hg.ne_nil more hclear hin
    exact hnot (covered_start hg (htext.trans heq))

/-- After a run the reader of the text is not inside an escape sequence. -/
theorem run_whole (hwhole : WholeEscapes secrets text) {done run stretch : Str} {parts : List (Str × Str)}
    (htext : text = done ++ run ++ (stretch ++ parts.flatMap fun p => p.1 ++ p.2)) (hne : run ≠ [])
    (hrun : ∀ i, done.length ≤ i → i < done.length + run.length → Covered secrets text i)
    (hstretch : ∀ i, done.length + run.length ≤ i → i < done.length + run.length + stretch.length →
      ¬Covered secrets text i) (hgap : parts ≠ [] → stretch ≠ []) : (Scan.outside.run (done ++ run)).Whole := by
  have hpos := List.length_pos_iff.2 hne
  have hlen : done.length + run.length - 1 + 1 = (done ++ run).length := by
    rw [List.length_append]
    omega
  have hnot : ¬Covered secrets text (done.length + run.length - 1 + 1) := by
    rw [hlen, List.length_append]
    cases stretch with
    | cons u stretch => exact hstretch _ (Nat.le_refl _) (by rw [List.length_cons]; omega)
    | nil =>
      have hparts : parts = [] := by
        by_contra h
        exact hgap h rfl
      intro h
      have hlt := covered_lt h
      rw [htext, hparts] at hlt
      simp only [List.flatMap_nil, List.append_nil, List.length_append] at hlt
      omega
  have hat := hwhole _ (hrun (done.length + run.length - 1) (by omega) (by omega)) hnot
  rw [hlen, htext, List.take_left] at hat
  exact hat

theorem parts_clean (hwhole : WholeEscapes secrets text) (hg : IsForm secrets g) (hfree : ∀ u ∈ REDACTED, u ∉ g)
    (hrun : Scan.outside.run text ≠ .broken) (hclean : ¬g.map some <:+: Scan.outside.units text)
    (done : Str) {first : Str} {parts : List (Str × Str)} {a : Scan}
    (htext : text = done ++ (first ++ parts.flatMap fun p => p.1 ++ p.2)) (ha : a.Whole)
    (hb : (Scan.outside.run done).Whole)
    (hclear : ∀ i, done.length ≤ i → i < done.length + first.length → ¬Covered secrets text i)
    (hcuts : Cuts (Covered secrets text) (done.length + first.length) parts)
    (harun : a.run (first ++ parts.flatMap fun p => REDACTED ++ p.2) ≠ .broken) :
    ¬g.map some <:+: a.units (first ++ parts.flatMap fun p => REDACTED ++ p.2) := by
  have hfirst := stretch_clean hg htext ha hb hclear hrun (Scan.run_left harun) hclean
  induction parts generalizing done first a with
  | nil =>
    rw [List.flatMap_nil, List.append_nil]
    exact hfirst
  | cons p parts ih =>
    obtain ⟨run, stretch⟩ := p
    obtain ⟨hne, hcovered, hstretch, hgap, hrest⟩ := hcuts
    have hlen : (done ++ first).length = done.length + first.length := List.length_append
    have hlen' : (done ++ first ++ run).length = done.length + first.length + run.length := by
      rw [List.length_append, hlen]
    rw [← hlen] at hcovered hstretch hrest
    have htext' : text = done ++ first ++ run ++ (stretch ++ parts.flatMap fun p => p.1 ++ p.2) := by
      rw [htext, List.flatMap_cons]
      simp only [List.append_assoc]
    have hafter := run_whole hwhole htext' hne hcovered hstretch hgap
    rw [hlen, ← hlen'] at hstretch hrest
    rw [List.flatMap_cons, List.append_assoc] at harun ⊢
    rw [Scan.run_append] at harun
    obtain ⟨hmid, hsame, hmarker, hapart⟩ := marker_read (Scan.run_left harun) hfree
    rw [Scan.run_append, hsame] at harun
    rw [Scan.units_append, Scan.units_append, hsame]
    intro h
    rcases infix_of_apart (map_some_ne_nil hg.ne_nil) hmarker hapart h with h | h
    · exact hfirst h
    · exact ih _ htext' hmid hafter hstretch hrest harun
        (stretch_clean hg htext' hmid hafter hstretch hrun (Scan.run_left harun) hclean) h

end SecondPass

/-! ## Secrets without backslashes -/

/-- How many units at most a reader is away from the end of an escape sequence. -/
def away : Scan → Nat
  | .slash => 5
  | .hex left _ => left + 1
  | _ => 0

theorem away_next {a : Scan} {u : UInt16} (hu : u ≠ unit '\\') : a.next u = .broken ∨ away (a.next u) ≤ away a - 1 := by
  cases a with
  | outside =>
    simp only [Scan.next, if_neg hu]
    split <;> exact .inr (Nat.le_refl _)
  | inside =>
    simp only [Scan.next, if_neg hu]
    split
    · exact .inr (Nat.le_refl _)
    split
    · exact .inl rfl
    · exact .inr (Nat.le_refl _)
  | slash =>
    simp only [Scan.next]
    split
    · exact .inr (Nat.le_refl _)
    split
    · exact .inr (Nat.zero_le _)
    · exact .inl rfl
  | hex left value =>
    simp only [Scan.next]
    split
    · exact .inl rfl
    split
    · exact .inr (Nat.zero_le _)
    · refine .inr ?_
      simp only [away]
      omega
  | broken => exact .inl rfl

theorem whole_of_away {a : Scan} (h : away a = 0) : a = .broken ∨ a.Whole := by
  cases a with
  | outside => exact .inr (.inl rfl)
  | inside => exact .inr (.inr rfl)
  | slash => cases h
  | hex left value => cases h
  | broken => exact .inl rfl

theorem away_plain {s : Str} (hs : ∀ u ∈ s, u ≠ unit '\\') (a : Scan) :
    a.run s = .broken ∨ away (a.run s) ≤ away a - s.length := by
  induction s generalizing a with
  | nil => exact .inr (Nat.le_refl _)
  | cons u s ih =>
    rw [Scan.run_cons]
    rcases away_next (a := a) (hs u List.mem_cons_self) with h | h
    · rw [h]
      exact .inl (Scan.run_broken s)
    · rcases ih (fun v hv => hs v (List.mem_cons_of_mem _ hv)) (a.next u) with h' | h'
      · exact .inl h'
      · refine .inr (h'.trans ?_)
        rw [List.length_cons]
        omega

/-- An escape sequence read from any state, but for `\\\\`. -/
theorem away_escape {e : UInt16} {rest : Str} (he : e ≠ unit '\\') (hrest : ∀ u ∈ rest, u ≠ unit '\\')
    (hinside : Scan.inside.run (unit '\\' :: e :: rest) = .inside) (a : Scan) :
    a.run (unit '\\' :: e :: rest) = .broken ∨ away (a.run (unit '\\' :: e :: rest)) = 0 := by
  have hbroken : a.next (unit '\\') = .broken → a.run (unit '\\' :: e :: rest) = .broken := by
    intro h
    rw [Scan.run_cons, h, Scan.run_broken]
  cases a with
  | outside => exact .inl (hbroken (by decide))
  | inside =>
    rw [hinside]
    exact .inr rfl
  | slash =>
    have hnext : Scan.slash.next (unit '\\') = .inside := by decide
    rw [Scan.run_cons, hnext]
    rcases away_plain (s := e :: rest) (fun u hu => by
      rcases List.mem_cons.1 hu with rfl | hu
      · exact he
      · exact hrest u hu) .inside with h | h
    · exact .inl h
    · exact .inr (Nat.le_zero.1 (h.trans (Nat.sub_le _ _)))
  | hex left value =>
    have hhex : hexOf (unit '\\') = none := by decide
    exact .inl (hbroken (by simp only [Scan.next, hhex]))
  | broken => exact .inl (Scan.run_broken _)

theorem away_quoteUnit {u : UInt16} (hu : u ≠ unit '\\') (a : Scan) :
    a.run (quoteUnit u) = .broken ∨ away (a.run (quoteUnit u)) ≤ away a - 1 := by
  have hescape : ∀ {e : UInt16} {rest : Str}, e ≠ unit '\\' → (∀ v ∈ rest, v ≠ unit '\\') →
      Scan.inside.run (unit '\\' :: e :: rest) = .inside → ∀ {s : Str}, s = unit '\\' :: e :: rest →
        a.run s = .broken ∨ away (a.run s) ≤ away a - 1 := by
    rintro e rest he hrest hinside s rfl
    rcases away_escape he hrest hinside a with h | h
    · exact .inl h
    · exact .inr (by omega)
  have hshort : ∀ {e : UInt16}, e ≠ unit '\\' → Scan.inside.run [unit '\\', e] = .inside → ∀ {s : Str},
      s = [unit '\\', e] → a.run s = .broken ∨ away (a.run s) ≤ away a - 1 := by
    intro e he hinside s hs
    exact hescape he (List.forall_mem_nil _) hinside hs
  have hhex : a.run (escapeUnit u) = .broken ∨ away (a.run (escapeUnit u)) ≤ away a - 1 := by
    have hdigit : ∀ n, hexOf (hexDigit (n % 16)) = some (n % 16) := fun n => hexOf_hexDigit (Nat.mod_lt _ (by decide))
    have hslash : hexOf (unit '\\') = none := by decide
    refine hescape (e := unit 'u') (by decide) ?_ (hex_reads (hdigit _) (hdigit _) (hdigit _) (hdigit _)).1 rfl
    intro v hv hvs
    simp only [List.mem_cons, List.not_mem_nil, or_false] at hv
    rcases hv with h | h | h | h <;> rw [hvs] at h <;> rw [h, hdigit] at hslash <;> cases hslash
  unfold quoteUnit
  split
  · exact hshort (e := unit '"') (by decide) (by decide) (by decide)
  split
  · exact hshort (e := unit 'b') (by decide) (by decide) (by decide)
  split
  · exact hshort (e := unit 't') (by decide) (by decide) (by decide)
  split
  · exact hshort (e := unit 'n') (by decide) (by decide) (by decide)
  split
  · exact hshort (e := unit 'f') (by decide) (by decide) (by decide)
  split
  · exact hshort (e := unit 'r') (by decide) (by decide) (by decide)
  split
  · exact hhex
  split
  · exact hhex
  · exact away_next hu

theorem away_quoteBody {s : Str} (hs : ∀ u ∈ s, u ≠ unit '\\') (a : Scan) :
    a.run (quoteBody s) = .broken ∨ away (a.run (quoteBody s)) ≤ away a - s.length := by
  induction s using quoteBody.induct generalizing a with
  | case1 => exact .inr (Nat.le_refl _)
  | case2 u => exact away_quoteUnit (hs u List.mem_cons_self) a
  | case3 u v rest h ih =>
    have hpair := away_plain (s := [u, v]) (fun w hw => hs w (by simp at hw ⊢; tauto)) a
    rw [quoteBody, if_pos h, show u :: v :: quoteBody rest = [u, v] ++ quoteBody rest from rfl, Scan.run_append]
    rcases hpair with hpair | hpair
    · rw [hpair]
      exact .inl (Scan.run_broken _)
    · rcases ih (fun w hw => hs w (List.mem_cons_of_mem _ (List.mem_cons_of_mem _ hw))) (a.run [u, v]) with h' | h'
      · exact .inl h'
      · refine .inr (h'.trans ?_)
        simp only [List.length_cons, List.length_nil] at hpair ⊢
        omega
  | case4 u v rest h ih =>
    rw [quoteBody, if_neg h, Scan.run_append]
    rcases away_quoteUnit (hs u List.mem_cons_self) a with hu | hu
    · rw [hu]
      exact .inl (Scan.run_broken _)
    · rcases ih (fun w hw => hs w (List.mem_cons_of_mem _ hw)) (a.run (quoteUnit u)) with h' | h'
      · exact .inl h'
      · refine .inr (h'.trans ?_)
        simp only [List.length_cons] at h' ⊢
        omega

theorem away_le (s : Str) {a : Scan} (ha : away a ≤ 5) : away (a.run s) ≤ 5 := by
  induction s generalizing a with
  | nil => exact ha
  | cons u s ih =>
    refine ih ?_
    by_cases hu : u = unit '\\'
    · subst hu
      cases a with
      | outside | inside | slash | broken => decide
      | hex left value =>
        have hhex : hexOf (unit '\\') = none := by decide
        simp only [Scan.next, hhex]
        exact Nat.zero_le _
    · rcases away_next (a := a) hu with h | h
      · rw [h]
        exact Nat.zero_le _
      · omega

/-- Without backslashes in the secrets every run ends outside the escape sequences. -/
theorem wholeEscapes_of_plain {secrets : List Str} {text : Str}
    (hplain : ∀ s ∈ secrets, 8 ≤ s.length → ∀ u ∈ s, u ≠ unit '\\') (hrun : Scan.outside.run text ≠ .broken) :
    WholeEscapes secrets text := by
  rintro i ⟨f, hf, pre, post, heq, hle, hlt⟩ hnot
  have hlast : i + 1 = (pre ++ f).length := by
    rw [List.length_append]
    by_contra hne
    exact hnot ⟨f, hf, pre, post, heq, by omega, by omega⟩
  have hstart : away (Scan.outside.run pre) ≤ 5 := away_le pre (by decide)
  have hends : away ((Scan.outside.run pre).run f) = 0 := by
    obtain ⟨s, hs, hlen, hor⟩ := hf
    have haway : (Scan.outside.run pre).run f = .broken ∨
        away ((Scan.outside.run pre).run f) ≤ away (Scan.outside.run pre) - s.length := by
      rcases hor with rfl | rfl
      · exact away_plain (hplain f hs hlen) _
      · exact away_quoteBody (hplain s hs hlen) _
    rcases haway with h | h
    · rw [h]
      rfl
    · omega
  rw [hlast, heq, List.take_left, Scan.run_append]
  rcases whole_of_away hends with h | h
  · rw [heq, Scan.run_append, Scan.run_append, h, Scan.run_broken] at hrun
    exact absurd rfl hrun
  · exact h

/-! ## What the box reads -/

/-- No string of the value that a JSON text spells contains a form. -/
def Clean (secrets : List Str) (text : Str) : Prop :=
  ∀ v, parse text = some v → ∀ w ∈ strings v, ∀ f, IsForm secrets f → includes f w = false

theorem secondPass_clean {secrets : List Str} {text : Str} {ws : List Str} (hfree : MarkerFree secrets)
    (hwhole : WholeEscapes secrets text) (hspells : Spells text ws) (hws : ∀ w ∈ ws, ∃ w₀, w = redact w₀ secrets) :
    Clean secrets (redact text secrets) := by
  intro v hv w hw f hf
  obtain ⟨hends, hstrings⟩ := parse_reads hv
  obtain ⟨c, hc⟩ := redact_cut text secrets
  have hclean : ¬f.map some <:+: Scan.outside.units text := by
    intro h
    obtain ⟨w, hw, hin⟩ := hspells.inner f hf.ne_nil h
    obtain ⟨w₀, rfl⟩ := hws w hw
    exact redact_clean hfree hf w₀ hin
  rw [hc] at hends hstrings
  have hparts := parts_clean hwhole hf (hfree f hf) (by rw [hspells.ends]; decide) hclean [] c.whole
    (.inl rfl) (.inl rfl) (fun i _ hi => c.clear i (by simpa using hi)) (by simpa using c.cuts) (a := .outside)
    (by rw [← Cut.replace, hends]; decide)
  by_contra h
  obtain ⟨pre, post, heq⟩ := Document.includes_iff.1 (Bool.not_eq_false _ ▸ h)
  refine hparts (List.IsInfix.trans ?_ (hstrings w hw))
  refine ⟨pre.map some, post.map some, ?_⟩
  rw [heq, List.map_append, List.map_append]

theorem walk_spells {spell : Str → Str} (hspell : ∀ t, Unquoted (spell t)) (secrets : List Str) (v : Json) :
    Spells (walk spell secrets v).stringify (strings (walk spell secrets v)) := by
  refine stringify_spells _ fun t ht => ?_
  obtain ⟨t₀, rfl⟩ := (walk_made v : Made spell secrets _ _).numbers t ht
  exact hspell t₀

/-- `redact` is complete; and of the strings of a JSON answer nothing is left, where no run that the second pass replaces
ends inside an escape sequence: as in every answer, when no secret of eight characters has a backslash. -/
theorem redacted_complete (secrets : List Str) :
    (∀ text, ∃ c : Cut (Covered secrets text) text, redact text secrets = c.replace REDACTED) ∧
      (∀ (spell : Str → Str) (text : Str) (contentType : Option Str) (parsed : Json),
        (∀ t, Unquoted (spell t)) → isJsonContentType contentType = true → parse text = some parsed →
          MarkerFree secrets → WholeEscapes secrets (walk spell secrets parsed).stringify →
            Clean secrets (redactBody spell text contentType secrets)) ∧
      ((∀ s ∈ secrets, 8 ≤ s.length → unit '\\' ∉ s) → ∀ (spell : Str → Str) (parsed : Json),
        (∀ t, Unquoted (spell t)) → WholeEscapes secrets (walk spell secrets parsed).stringify) := by
  refine ⟨fun text => redact_cut text secrets, ?_, ?_⟩
  · intro spell text contentType parsed hspell hjson hparse hfree hwhole
    rw [redactBody, if_pos hjson, hparse]
    exact secondPass_clean hfree hwhole (walk_spells hspell secrets parsed) (walk_made parsed).strings
  · intro hplain spell parsed hspell
    refine wholeEscapes_of_plain (fun s hs hlen u hu hslash => ?_) ?_
    · exact hplain s hs hlen (hslash ▸ hu)
    · rw [(walk_spells hspell secrets parsed).ends]
      decide

instance (secrets : List Str) (text : Str) (k : Nat) : Decidable (Covered secrets text k) :=
  decidable_of_iff (k < text.length ∧ (marks text (forms secrets))[k]? = some true)
    ⟨fun h => (marks_get text secrets h.1).1 h.2, fun h => ⟨covered_lt h, (marks_get text secrets (covered_lt h)).2 h⟩⟩

instance (secrets : List Str) (text : Str) : Decidable (WholeEscapes secrets text) :=
  decidable_of_iff (∀ i < text.length, Covered secrets text i → ¬Covered secrets text (i + 1) →
    (Scan.outside.run (text.take (i + 1))).Whole) ⟨fun h i hi => h i (covered_lt hi) hi, fun h i _ hi => h i hi⟩

instance (secrets : List Str) : Decidable (MarkerFree secrets) :=
  decidable_of_iff ((forms secrets).all fun f => REDACTED.all fun u => !f.contains u) (by
    simp only [List.all_eq_true, mem_forms, Bool.not_eq_true', MarkerFree, List.contains_eq_mem, decide_eq_false_iff_not])

/-- A secret that an escape spells: the first pass takes it out. -/
theorem redacted_complete_escaped :
    Clean [js "hunnypooh"] (redactBody (fun _ => js "0") (js "\x7b\"k\":\"hunn\\u0079pooh\",\"n\":0.0\x7d")
      (some (js "application/json")) [js "hunnypooh"]) :=
  (redacted_complete [js "hunnypooh"]).2.1 (fun _ => js "0") _ _
    (.obj [(js "k", .str (js "hunnypooh")), (js "n", .num (js "0.0"))]) (fun _ => by decide) (by decide +kernel)
    (by decide +kernel) (by decide +kernel) (by decide +kernel)

/-- The second pass ends a run between the two backslashes of an escaped one: `u0067`, which stood for itself, is read with
the backslash that is left, and spells the other secret. -/
theorem cut_escape_leaks :
    ¬∀ (spell : Str → Str) (secrets : List Str) (text : Str) (parsed : Json), (∀ t, Unquoted (spell t)) →
      parse text = some parsed → MarkerFree secrets →
        Clean secrets (redactBody spell text (some (js "application/json")) secrets) := by
  intro h
  have hclean := h (fun _ => js "0") [js "xxxxxx\\nyyy\\", js "gggggggg"] (js "\"xxxxxx\\nyyy\\\\u0067ggggggg\"")
    (.str (js "xxxxxx\nyyy\\u0067ggggggg")) (fun _ => by decide) (by decide +kernel) (by decide +kernel)
  have hleft := hclean (.str (js "[redacted]gggggggg")) (by decide +kernel) _ (List.mem_singleton_self _) (js "gggggggg")
    ⟨js "gggggggg", by decide, by decide, .inl rfl⟩
  exact absurd hleft (by decide +kernel)

end Antiproton.Redact
