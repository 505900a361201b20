import Mathlib.Data.List.TakeWhile
import Antiproton.Core.JsonParse
import Antiproton.Lib.Runs

/-!
# Antiproton.Core.JsonScan

A JSON text read unit by unit, as what tells a string's inside and an escape sequence from the rest: `Scan` is where the
reader is, `units` what the strings of the text spell, one after another, with a break wherever one ends.

* `parse_reads`: the reader ends a text that parses outside its strings, and each string of the value is spelled in one go.
* `stringify_spells`: what is spelled in one go in the text of a value lies in one of its strings.
-/

namespace Antiproton

namespace Js

/-- No quote and no backslash: a text of tokens other than strings. -/
def Unquoted (t : Str) : Prop := ∀ u ∈ t, u ≠ unit '"' ∧ u ≠ unit '\\'

instance (t : Str) : Decidable (Unquoted t) := List.decidableBAll _ t

/-- Where a reader of JSON text is. -/
inductive Scan where
  | outside
  | inside
  /-- After the backslash of an escape sequence. -/
  | slash
  /-- In the digits of `\uXXXX`, so many of them left. -/
  | hex (left value : Nat)
  | broken
deriving DecidableEq, Repr

namespace Scan

def next (a : Scan) (u : UInt16) : Scan :=
  match a with
  | outside => if u = unit '"' then inside else if u = unit '\\' then broken else outside
  | inside =>
    if u = unit '"' then outside
    else if u < 0x20 then broken
    else if u = unit '\\' then slash
    else inside
  | slash => if u = unit 'u' then hex 3 0 else if (escapeOf u).isSome then inside else broken
  | hex left value =>
    match hexOf u with
    | none => broken
    | some d => if left = 0 then inside else hex (left - 1) (value * 16 + d)
  | broken => broken

/-- What a unit spells: one of a string's own, a break, or nothing yet. -/
def gives (a : Scan) (u : UInt16) : List (Option UInt16) :=
  match a with
  | inside => if u = unit '"' then [none] else if u = unit '\\' then [] else [some u]
  | slash =>
    match escapeOf u with
    | some v => [some v]
    | none => []
  | hex left value =>
    match hexOf u with
    | some d => if left = 0 then [some (value * 16 + d).toUInt16] else []
    | none => []
  | outside | broken => [none]

def run (a : Scan) (s : Str) : Scan := s.foldl next a

def units : Scan → Str → List (Option UInt16)
  | _, [] => []
  | a, u :: s => a.gives u ++ units (a.next u) s

/-- Not inside an escape sequence. -/
def Whole (a : Scan) : Prop := a = outside ∨ a = inside

instance (a : Scan) : Decidable a.Whole := inferInstanceAs (Decidable (_ ∨ _))

@[simp] theorem run_nil (a : Scan) : a.run [] = a := rfl

@[simp] theorem run_cons (a : Scan) (u : UInt16) (s : Str) : a.run (u :: s) = (a.next u).run s := rfl

@[simp] theorem units_nil (a : Scan) : a.units [] = [] := rfl

@[simp] theorem units_cons (a : Scan) (u : UInt16) (s : Str) : a.units (u :: s) = a.gives u ++ (a.next u).units s := rfl

theorem run_append (a : Scan) (s t : Str) : a.run (s ++ t) = (a.run s).run t := List.foldl_append ..

theorem units_append (a : Scan) (s t : Str) : a.units (s ++ t) = a.units s ++ (a.run s).units t := by
  induction s generalizing a with
  | nil => rfl
  | cons u s ih => rw [List.cons_append, units_cons, ih, units_cons, run_cons, List.append_assoc]

theorem run_broken (s : Str) : broken.run s = broken := by
  induction s with
  | nil => rfl
  | cons u s ih => exact ih

/-- A reader that ends unbroken was never broken. -/
theorem run_left {a : Scan} {s t : Str} (h : a.run (s ++ t) ≠ broken) : a.run s ≠ broken := by
  intro hs
  rw [run_append, hs, run_broken] at h
  exact h rfl

theorem outside_plain {s : Str} (h : Unquoted s) :
    outside.run s = outside ∧ outside.units s = s.map fun _ => none := by
  induction s with
  | nil => exact ⟨rfl, rfl⟩
  | cons u s ih =>
    obtain ⟨hq, hb⟩ := h u List.mem_cons_self
    obtain ⟨hrun, hunits⟩ := ih fun v hv => h v (List.mem_cons_of_mem _ hv)
    have hnext : outside.next u = outside := by
      change (if u = unit '"' then inside else if u = unit '\\' then broken else outside) = outside
      rw [if_neg hq, if_neg hb]
    rw [run_cons, units_cons, hnext, hrun, hunits]
    exact ⟨rfl, rfl⟩

/-- The same inside a string, for a text without control characters. -/
theorem inside_plain {s : Str} (h : ∀ u ∈ s, u ≠ unit '"' ∧ u ≠ unit '\\' ∧ ¬u < 0x20) :
    inside.run s = inside ∧ inside.units s = s.map some := by
  induction s with
  | nil => exact ⟨rfl, rfl⟩
  | cons u s ih =>
    obtain ⟨hq, hb, hc⟩ := h u List.mem_cons_self
    obtain ⟨hrun, hunits⟩ := ih fun v hv => h v (List.mem_cons_of_mem _ hv)
    have hnext : inside.next u = inside := by
      change (if u = unit '"' then outside else if u < 0x20 then broken else if u = unit '\\' then slash else inside) = _
      rw [if_neg hq, if_neg hc, if_neg hb]
    have hgives : inside.gives u = [some u] := by
      change (if u = unit '"' then [none] else if u = unit '\\' then [] else [some u]) = _
      rw [if_neg hq, if_neg hb]
    rw [run_cons, units_cons, hnext, hgives, hrun, hunits]
    exact ⟨rfl, rfl⟩

end Scan

open Scan

/-! ## One string -/

theorem escape_reads {e u : UInt16} (he : e ≠ unit 'u') (hu : escapeOf e = some u) :
    inside.run [unit '\\', e] = inside ∧ inside.units [unit '\\', e] = [some u] := by
  have hslash : inside.next (unit '\\') = slash := by decide
  have hnone : inside.gives (unit '\\') = [] := by decide
  have hnext : slash.next e = inside := by
    change (if e = unit 'u' then hex 3 0 else if (escapeOf e).isSome then inside else broken) = inside
    rw [if_neg he, hu]
    rfl
  have hgives : slash.gives e = [some u] := by
    simp only [gives, hu]
  simp only [run_cons, run_nil, units_cons, units_nil, hslash, hnone, hnext, hgives, List.nil_append, List.append_nil, and_self]

theorem hex_more {u : UInt16} {d : Nat} (hu : hexOf u = some d) (left value : Nat) :
    (hex (left + 1) value).next u = hex left (value * 16 + d) ∧ (hex (left + 1) value).gives u = [] := by
  simp only [next, gives, hu, if_neg (Nat.succ_ne_zero left), Nat.add_sub_cancel, and_self]

theorem hex_last {u : UInt16} {d : Nat} (hu : hexOf u = some d) (value : Nat) :
    (hex 0 value).next u = inside ∧ (hex 0 value).gives u = [some (value * 16 + d).toUInt16] := by
  simp only [next, gives, hu, if_true, and_self]

theorem hex_reads {a b c d : UInt16} {p q r s : Nat} (ha : hexOf a = some p) (hb : hexOf b = some q)
    (hc : hexOf c = some r) (hd : hexOf d = some s) :
    inside.run [unit '\\', unit 'u', a, b, c, d] = inside ∧
      inside.units [unit '\\', unit 'u', a, b, c, d] = [some (((p * 16 + q) * 16 + r) * 16 + s).toUInt16] := by
  have hslash : inside.next (unit '\\') = slash ∧ inside.gives (unit '\\') = [] := by decide
  have hu : slash.next (unit 'u') = hex 3 0 ∧ slash.gives (unit 'u') = [] := by decide
  obtain ⟨ha, ha'⟩ := hex_more ha 2 0
  obtain ⟨hb, hb'⟩ := hex_more hb 1 (0 * 16 + p)
  obtain ⟨hc, hc'⟩ := hex_more hc 0 ((0 * 16 + p) * 16 + q)
  obtain ⟨hd, hd'⟩ := hex_last hd (((0 * 16 + p) * 16 + q) * 16 + r)
  simp only [Nat.zero_mul, Nat.zero_add] at ha ha' hb hb' hc hc' hd hd'
  simp only [run_cons, run_nil, units_cons, units_nil, hslash, hu, ha, ha', hb, hb', hc, hc', hd, hd', List.nil_append,
    List.append_nil, and_self]

/-- What `parseString` reads is spelled up to the closing quote. -/
theorem parseString_reads {s w rest : Str} (h : parseString s = some (w, rest)) :
    ∃ t, s = t ++ rest ∧ inside.run t = outside ∧ inside.units t = w.map some ++ [none] := by
  have hmore : ∀ {head tail w' : Str} {u : UInt16}, inside.run head = inside ∧ inside.units head = [some u] →
      (∃ t, tail = t ++ rest ∧ inside.run t = outside ∧ inside.units t = w'.map some ++ [none]) →
      ∃ t, head ++ tail = t ++ rest ∧ inside.run t = outside ∧ inside.units t = (u :: w').map some ++ [none] := by
    rintro head tail w' u ⟨hrun, hunits⟩ ⟨t, rfl, htrun, htunits⟩
    refine ⟨head ++ t, (List.append_assoc ..).symm, ?_, ?_⟩
    · rw [run_append, hrun, htrun]
    · rw [units_append, hrun, hunits, htunits]
      rfl
  fun_induction parseString s generalizing w with
  | case1 => cases h
  | case2 tail =>
    cases h
    exact ⟨[unit '"'], rfl, by decide, by decide⟩
  | case3 => cases h
  | case4 a b c d tail p q r s hd hc hb ha _ _ ih =>
    obtain ⟨⟨w', rest'⟩, hread, heq⟩ := Option.map_eq_some_iff.1 h
    cases heq
    exact hmore (hex_reads ha hb hc hd) (ih hread)
  | case5 => cases h
  | case6 => cases h
  | case7 e tail he u hu _ _ ih =>
    obtain ⟨⟨w', rest'⟩, hread, heq⟩ := Option.map_eq_some_iff.1 h
    cases heq
    exact hmore (escape_reads he hu) (ih hread)
  | case8 => cases h
  | case9 => cases h
  | case10 u tail hq hc hb ih =>
    obtain ⟨⟨w', rest'⟩, hread, heq⟩ := Option.map_eq_some_iff.1 h
    cases heq
    have hplain := inside_plain (s := [u]) fun v hv => by
      rw [List.mem_singleton.1 hv]
      exact ⟨hq, hb, hc⟩
    exact hmore hplain (ih hread)

/-! ## Tokens -/

/-- A text goes on with `rest` after what ends outside its strings and spells each of `ws`. -/
def Reads (s rest : Str) (ws : List Str) : Prop :=
  ∃ t, s = t ++ rest ∧ outside.run t = outside ∧ ∀ w ∈ ws, w.map some <:+: outside.units t

namespace Reads

variable {s s' s'' : Str} {ws ws' : List Str}

theorem refl : Reads s s [] := ⟨[], rfl, rfl, fun _ hw => nomatch hw⟩

theorem trans (h : Reads s s' ws) (h' : Reads s' s'' ws') : Reads s s'' (ws ++ ws') := by
  obtain ⟨t, rfl, hrun, hws⟩ := h
  obtain ⟨t', rfl, hrun', hws'⟩ := h'
  refine ⟨t ++ t', (List.append_assoc ..).symm, by rw [run_append, hrun, hrun'], ?_⟩
  intro w hw
  rw [units_append, hrun]
  rcases List.mem_append.1 hw with hw | hw
  · exact (hws w hw).trans (List.prefix_append ..).isInfix
  · exact (hws' w hw).trans (List.suffix_append ..).isInfix

theorem mono (h : Reads s s' ws) (hsub : ∀ w ∈ ws', w ∈ ws) : Reads s s' ws' := by
  obtain ⟨t, heq, hrun, hws⟩ := h
  exact ⟨t, heq, hrun, fun w hw => hws w (hsub w hw)⟩

/-- After a token that is no string. -/
theorem token {t : Str} (ht : Unquoted t) : Reads (t ++ s) s [] :=
  ⟨t, rfl, (outside_plain ht).1, fun _ hw => nomatch hw⟩

theorem one {u : UInt16} (hq : u ≠ unit '"') (hb : u ≠ unit '\\') : Reads (u :: s) s [] := by
  refine token (t := [u]) fun v hv => ?_
  rw [List.mem_singleton.1 hv]
  exact ⟨hq, hb⟩

theorem blanks : Reads s (s.dropWhile isBlank) [] := by
  have h := token (s := s.dropWhile isBlank) (t := s.takeWhile isBlank) fun u hu => by
    have hblank := List.mem_takeWhile_imp hu
    refine ⟨?_, ?_⟩ <;> rintro rfl <;> exact absurd hblank (by decide)
  rwa [List.takeWhile_append_dropWhile] at h

theorem string {w : Str} (h : parseString s = some (w, s')) : Reads (unit '"' :: s) s' [w] := by
  obtain ⟨t, rfl, hrun, hunits⟩ := parseString_reads h
  have hopen : outside.next (unit '"') = inside := by decide
  refine ⟨unit '"' :: t, rfl, by rw [run_cons, hopen, hrun], ?_⟩
  intro v hv
  rw [List.mem_singleton.1 hv, units_cons, hopen, hunits]
  exact ⟨outside.gives (unit '"'), [none], List.append_assoc ..⟩

end Reads

theorem parseDigits_reads {s t rest : Str} (h : parseDigits s = some (t, rest)) : Reads s rest [] := by
  unfold parseDigits at h
  split at h
  · cases h
  · cases h
    have hall := Reads.token (s := s.dropWhile isDigit) (t := s.takeWhile isDigit) fun u hu => by
      have hdigit := List.mem_takeWhile_imp hu
      refine ⟨?_, ?_⟩ <;> rintro rfl <;> exact absurd hdigit (by decide)
    rwa [List.takeWhile_append_dropWhile] at hall

theorem parseInteger_reads {s t rest : Str} (h : parseInteger s = some (t, rest)) : Reads s rest [] := by
  cases s with
  | nil => cases h
  | cons c s =>
    change (if c = unit '0' then some ([c], s) else parseDigits (c :: s)) = _ at h
    split at h
    · next hc =>
      cases h
      subst hc
      exact .one (by decide) (by decide)
    · exact parseDigits_reads h

theorem parseFraction_reads {s t rest : Str} (h : parseFraction s = some (t, rest)) : Reads s rest [] := by
  cases s with
  | nil =>
    cases h
    exact .refl
  | cons c s =>
    change (if c = unit '.' then (parseDigits s).map fun p => (c :: p.1, p.2) else some ([], c :: s)) = _ at h
    split at h
    · next hc =>
      obtain ⟨p, hp, heq⟩ := Option.map_eq_some_iff.1 h
      cases heq
      subst hc
      exact (Reads.one (by decide) (by decide)).trans (parseDigits_reads hp)
    · cases h
      exact .refl

theorem parseExponent_reads {s t rest : Str} (h : parseExponent s = some (t, rest)) : Reads s rest [] := by
  cases s with
  | nil =>
    cases h
    exact .refl
  | cons c s =>
    rw [parseExponent.eq_def] at h
    dsimp only at h
    split at h
    · next hc =>
      have hhead : Reads (c :: s) s [] := by
        rcases hc with rfl | rfl <;> exact .one (by decide) (by decide)
      cases s with
      | nil => cases h
      | cons d s =>
        dsimp only at h
        split at h
        · next hd =>
          obtain ⟨p, hp, heq⟩ := Option.map_eq_some_iff.1 h
          cases heq
          have hsign : Reads (d :: s) s [] := by
            rcases hd with rfl | rfl <;> exact .one (by decide) (by decide)
          exact hhead.trans (hsign.trans (parseDigits_reads hp))
        · obtain ⟨p, hp, heq⟩ := Option.map_eq_some_iff.1 h
          cases heq
          exact hhead.trans (parseDigits_reads hp)
    · cases h
      exact .refl

theorem parseNumber_reads {s t rest : Str} (h : parseNumber s = some (t, rest)) : Reads s rest [] := by
  unfold parseNumber at h
  split at h
  rename_i sign unsigned hsign
  have hunsigned : Reads unsigned rest [] := by
    split at h
    · cases h
    · next int s₁ hint =>
      split at h
      · cases h
      · next frac s₂ hfrac =>
        obtain ⟨p, hp, heq⟩ := Option.map_eq_some_iff.1 h
        cases heq
        exact (parseInteger_reads hint).trans ((parseFraction_reads hfrac).trans (parseExponent_reads hp))
  cases s with
  | nil =>
    cases hsign
    exact hunsigned
  | cons c s =>
    dsimp only at hsign
    by_cases hc : c = unit '-'
    · rw [if_pos hc] at hsign
      cases hsign
      subst hc
      exact (Reads.one (by decide) (by decide)).trans hunsigned
    · rw [if_neg hc] at hsign
      cases hsign
      exact hunsigned

/-! ## Values -/

mutual

/-- Every string of a value at any depth, the keys of its objects among them. -/
def strings : Json → List Str
  | .str s => [s]
  | .arr items => stringsItems items
  | .obj fields => stringsFields fields
  | _ => []

def stringsItems : List Json → List Str
  | [] => []
  | v :: vs => strings v ++ stringsItems vs

def stringsFields : List (Str × Json) → List Str
  | [] => []
  | (k, v) :: fs => k :: strings v ++ stringsFields fs

end

theorem mem_stringsFields {fs : List (Str × Json)} {w : Str} :
    w ∈ stringsFields fs ↔ ∃ f ∈ fs, w = f.1 ∨ w ∈ strings f.2 := by
  induction fs with
  | nil => simp [stringsFields]
  | cons f fs ih =>
    obtain ⟨k, v⟩ := f
    simp only [stringsFields, List.cons_append, List.mem_cons, List.mem_append, ih, exists_eq_or_imp, or_assoc]

theorem mem_setField {fields : List (Str × Json)} {f g : Str × Json} (h : g ∈ setField fields f) :
    g ∈ fields ∨ g = f := by
  unfold setField at h
  split at h
  · obtain ⟨e, he, rfl⟩ := List.mem_map.1 h
    split
    · exact .inr rfl
    · exact .inl he
  · rcases List.mem_append.1 h with h | h
    · exact .inl h
    · exact .inr (List.mem_singleton.1 h)

/-- An object's fields are among what was written. -/
theorem mem_ofEntries {entries : List (Str × Json)} {f : Str × Json} (h : f ∈ ofEntries entries) : f ∈ entries := by
  have hset : ∀ (es fields : List (Str × Json)), f ∈ es.foldl setField fields → f ∈ fields ∨ f ∈ es := by
    intro es
    induction es with
    | nil => exact fun fields h => .inl h
    | cons e es ih =>
      intro fields h
      rcases ih _ h with h | h
      · rcases mem_setField h with h | rfl
        · exact .inl h
        · exact .inr List.mem_cons_self
      · exact .inr (List.mem_cons_of_mem _ h)
  have hall : f ∈ entries.foldl setField [] := by
    rcases List.mem_append.1 h with h | h
    · exact (List.mem_filter.1 ((Table.orderBy_perm _ _).mem_iff.1 h)).1
    · exact (List.mem_filter.1 h).1
  rcases hset entries [] hall with h | h
  · cases h
  · exact h

theorem literal_reads {word : String} {v v' : Json} {s rest : Str} (hword : Unquoted (js word))
    (h : literal word v s = some (v', rest)) : Reads s rest [] ∧ v' = v := by
  unfold literal at h
  split at h
  · next hs =>
    cases h
    obtain ⟨t, rfl⟩ := List.isPrefixOf_iff_prefix.1 hs
    rw [List.drop_left]
    exact ⟨.token hword, rfl⟩
  · cases h

/-- What each of the parsers reads. -/
structure ReadsAll (n : Nat) : Prop where
  value : ∀ s v rest, parseValue n s = some (v, rest) → Reads s rest (strings v)
  items : ∀ s vs rest, parseItems n s = some (vs, rest) → Reads s rest (stringsItems vs)
  fields : ∀ s fs rest, parseFields n s = some (fs, rest) → Reads s rest (stringsFields fs)

/-- White space and one unit, neither of a string. -/
theorem reads_head {s rest : Str} {c : UInt16} (h : s.dropWhile isBlank = c :: rest) (hq : c ≠ unit '"')
    (hb : c ≠ unit '\\') : Reads s rest [] := by
  have hs := Reads.blanks (s := s)
  rw [h] at hs
  exact hs.trans (.one hq hb)

theorem parseValue_reads {n : Nat} (ih : ReadsAll n) {s rest : Str} {v : Json}
    (h : parseValue (n + 1) s = some (v, rest)) : Reads s rest (strings v) := by
  rw [parseValue] at h
  have hs := Reads.blanks (s := s)
  split at h
  · cases h
  · next c tail heq =>
    rw [heq] at hs
    split at h
    · next hc =>
      subst hc
      obtain ⟨p, hp, hv⟩ := Option.map_eq_some_iff.1 h
      cases hv
      exact hs.trans (.string hp)
    split at h
    · next hc =>
      subst hc
      have hopen := hs.trans (.one (s := tail) (by decide) (by decide))
      split at h
      · cases h
      · next d tail' hd =>
        split at h
        · next hclose =>
          subst hclose
          cases h
          exact hopen.trans (reads_head hd (by decide) (by decide))
        · obtain ⟨p, hp, hv⟩ := Option.map_eq_some_iff.1 h
          cases hv
          exact hopen.trans (ih.items _ _ _ hp)
    split at h
    · next hc =>
      subst hc
      have hopen := hs.trans (.one (s := tail) (by decide) (by decide))
      split at h
      · cases h
      · next d tail' hd =>
        split at h
        · next hclose =>
          subst hclose
          cases h
          exact hopen.trans (reads_head hd (by decide) (by decide))
        · obtain ⟨p, hp, hv⟩ := Option.map_eq_some_iff.1 h
          cases hv
          refine (hopen.trans (ih.fields _ _ _ hp)).mono fun w hw => ?_
          obtain ⟨f, hf, hor⟩ := mem_stringsFields.1 hw
          exact mem_stringsFields.2 ⟨f, mem_ofEntries hf, hor⟩
    split at h
    · obtain ⟨hword, rfl⟩ := literal_reads (by decide) h
      exact hs.trans hword
    split at h
    · obtain ⟨hword, rfl⟩ := literal_reads (by decide) h
      exact hs.trans hword
    split at h
    · obtain ⟨hword, rfl⟩ := literal_reads (by decide) h
      exact hs.trans hword
    · obtain ⟨p, hp, hv⟩ := Option.map_eq_some_iff.1 h
      cases hv
      exact hs.trans (parseNumber_reads hp)

theorem parseItems_reads {n : Nat} (ih : ReadsAll n) {s rest : Str} {vs : List Json}
    (h : parseItems (n + 1) s = some (vs, rest)) : Reads s rest (stringsItems vs) := by
  rw [parseItems] at h
  split at h
  · cases h
  · next v s₁ hv =>
    have hfirst := ih.value _ _ _ hv
    split at h
    · cases h
    · next c tail heq =>
      split at h
      · next hc =>
        subst hc
        cases h
        exact (hfirst.trans (reads_head heq (by decide) (by decide))).mono fun w hw => by
          simpa [stringsItems] using hw
      split at h
      · next hc =>
        subst hc
        obtain ⟨p, hp, hvs⟩ := Option.map_eq_some_iff.1 h
        cases hvs
        exact hfirst.trans ((reads_head heq (by decide) (by decide)).trans (ih.items _ _ _ hp))
      · cases h

theorem parseFields_reads {n : Nat} (ih : ReadsAll n) {s rest : Str} {fs : List (Str × Json)}
    (h : parseFields (n + 1) s = some (fs, rest)) : Reads s rest (stringsFields fs) := by
  rw [parseFields] at h
  have hs := Reads.blanks (s := s)
  split at h
  · cases h
  · next c tail heq =>
    rw [heq] at hs
    split at h
    · next hc =>
      subst hc
      split at h
      · cases h
      · next k s₁ hk =>
        have hkey := hs.trans (.string hk)
        split at h
        · cases h
        · next c₁ tail₁ heq₁ =>
          split at h
          · next hc₁ =>
            subst hc₁
            have hcolon := hkey.trans (reads_head heq₁ (by decide) (by decide))
            split at h
            · cases h
            · next v s₂ hv =>
              have hfield := hcolon.trans (ih.value _ _ _ hv)
              split at h
              · cases h
              · next c₂ tail₂ heq₂ =>
                split at h
                · next hc₂ =>
                  subst hc₂
                  cases h
                  exact (hfield.trans (reads_head heq₂ (by decide) (by decide))).mono fun w hw => by
                    simpa [stringsFields] using hw
                split at h
                · next hc₂ =>
                  subst hc₂
                  obtain ⟨p, hp, hfs⟩ := Option.map_eq_some_iff.1 h
                  cases hfs
                  have hmore := (reads_head heq₂ (by decide) (by decide)).trans (ih.fields _ _ _ hp)
                  exact (hfield.trans hmore).mono fun w hw => by simpa [stringsFields] using hw
                · cases h
          · cases h
    · cases h

theorem readsAll (n : Nat) : ReadsAll n := by
  induction n with
  | zero => exact ⟨fun _ _ _ h => (nomatch h), fun _ _ _ h => (nomatch h), fun _ _ _ h => (nomatch h)⟩
  | succ n ih =>
    exact ⟨fun _ _ _ h => parseValue_reads ih h, fun _ _ _ h => parseItems_reads ih h, fun _ _ _ h => parseFields_reads ih h⟩

/-- A text that parses ends outside its strings, and spells each string of the value in one go. -/
theorem parse_reads {s : Str} {v : Json} (h : parse s = some v) :
    outside.run s = outside ∧ ∀ w ∈ strings v, w.map some <:+: outside.units s := by
  unfold parse at h
  split at h
  · cases h
  · next v' rest hread =>
    split at h
    · next hblank =>
      cases h
      have hrest : rest.dropWhile isBlank = [] := List.dropWhile_eq_nil_iff.2 (List.all_eq_true.1 hblank)
      have hblanks := Reads.blanks (s := rest)
      rw [hrest] at hblanks
      obtain ⟨t, rfl, hrun, hws⟩ := ((readsAll _).value _ _ _ hread).trans hblanks
      rw [List.append_nil]
      exact ⟨hrun, fun w hw => hws w (List.mem_append_left _ hw)⟩
    · cases h

/-! ## The text of a value -/

/-- A text that ends outside its strings, what it spells in one go lying in one of `ws`. -/
structure Spells (s : Str) (ws : List Str) : Prop where
  ends : outside.run s = outside
  inner : ∀ g, g ≠ [] → g.map some <:+: outside.units s → ∃ w ∈ ws, g <:+: w

theorem none_apart {g : Str} : ∀ u ∈ [(none : Option UInt16)], u ∉ g.map some := by
  intro u hu hmem
  rw [List.mem_singleton.1 hu] at hmem
  obtain ⟨_, -, h⟩ := List.mem_map.1 hmem
  cases h

theorem map_some_ne_nil {g : Str} (hg : g ≠ []) : g.map some ≠ [] := fun h => hg (List.map_eq_nil_iff.1 h)

theorem Spells.append {s t : Str} {ws ws' : List Str} (hs : Spells s ws) (ht : Spells t ws') :
    Spells (s ++ t) (ws ++ ws') := by
  refine ⟨by rw [run_append, hs.ends, ht.ends], ?_⟩
  intro g hg h
  rw [units_append, hs.ends] at h
  have hsplit : g.map some <:+: outside.units s ∨ g.map some <:+: outside.units t := by
    cases t with
    | nil =>
      rw [units_nil, List.append_nil] at h
      exact .inl h
    | cons u t =>
      rw [units_cons] at h ⊢
      rcases Runs.infix_of_apart (map_some_ne_nil hg) (List.cons_ne_nil _ _) none_apart h with h | h
      · exact .inl h
      · exact .inr (h.trans (List.suffix_append ..).isInfix)
  rcases hsplit with h | h
  · obtain ⟨w, hw, hin⟩ := hs.inner g hg h
    exact ⟨w, List.mem_append_left _ hw, hin⟩
  · obtain ⟨w, hw, hin⟩ := ht.inner g hg h
    exact ⟨w, List.mem_append_right _ hw, hin⟩

theorem Spells.token {s : Str} (h : Unquoted s) : Spells s [] := by
  obtain ⟨hrun, hunits⟩ := outside_plain h
  refine ⟨hrun, ?_⟩
  intro g hg hin
  obtain ⟨u, g, rfl⟩ := List.exists_cons_of_ne_nil hg
  have hmem := hin.subset (List.mem_map_of_mem List.mem_cons_self)
  rw [hunits] at hmem
  obtain ⟨_, -, h⟩ := List.mem_map.1 hmem
  cases h

theorem Spells.quote (w : Str) : Spells (Js.quote w) [w] := by
  obtain ⟨t, ht, hrun, hunits⟩ := parseString_reads (parseString_quoteBody w [])
  rw [List.append_nil] at ht
  have hquote : Js.quote w = unit '"' :: t := by rw [← ht]; rfl
  have hopen : outside.next (unit '"') = inside := by decide
  have hgives : outside.gives (unit '"') = [none] := rfl
  rw [hquote]
  refine ⟨by rw [run_cons, hopen, hrun], ?_⟩
  intro g hg h
  refine ⟨w, List.mem_singleton_self w, ?_⟩
  rw [units_cons, hopen, hgives, hunits] at h
  have hbody := Runs.infix_of_apart_left (map_some_ne_nil hg) none_apart h
  rcases Runs.infix_of_apart (b := []) (map_some_ne_nil hg) (List.cons_ne_nil _ _) none_apart hbody with h | h
  · obtain ⟨pre, post, heq⟩ := h
    obtain ⟨front, back, rfl, hfront, hback⟩ := List.map_eq_append_iff.1 heq.symm
    obtain ⟨front, middle, rfl, hpre, hmiddle⟩ := List.map_eq_append_iff.1 hfront
    have hsame : middle = g := List.map_injective_iff.2 (Option.some_injective _) hmiddle
    subst hsame
    exact ⟨front, back, rfl⟩
  · exact absurd (List.infix_nil.1 h) (map_some_ne_nil hg)

mutual

/-- The numbers of a value as they are written. -/
def numbers : Json → List Str
  | .num t => [t]
  | .arr items => numbersItems items
  | .obj fields => numbersFields fields
  | _ => []

def numbersItems : List Json → List Str
  | [] => []
  | v :: vs => numbers v ++ numbersItems vs

def numbersFields : List (Str × Json) → List Str
  | [] => []
  | (_, v) :: fs => numbers v ++ numbersFields fs

end

mutual

theorem stringify_spells : ∀ v : Json, (∀ t ∈ numbers v, Unquoted t) → Spells v.stringify (strings v)
  | .null, _ => .token (by decide)
  | .bool true, _ => .token (by decide)
  | .bool false, _ => .token (by decide)
  | .num t, h => .token (h t (List.mem_singleton_self t))
  | .str s, _ => .quote s
  | .arr items, h => by
    have hitems := stringifyItems_spells items h
    have h := (Spells.token (s := [unit '[']) (by decide)).append (hitems.append (.token (s := [unit ']']) (by decide)))
    rwa [List.append_nil] at h
  | .obj fields, h => by
    have hfields := stringifyFields_spells fields h
    have h := (Spells.token (s := [unit '\x7b']) (by decide)).append (hfields.append (.token (s := [unit '\x7d']) (by decide)))
    rwa [List.append_nil] at h

theorem stringifyItems_spells : ∀ vs : List Json, (∀ t ∈ numbersItems vs, Unquoted t) →
    Spells (join [unit ','] (Json.stringifyItems vs)) (stringsItems vs)
  | [], _ => .token (by decide)
  | [v], h => by
    have hv := stringify_spells v fun t ht => h t (List.mem_append_left _ ht)
    rw [stringsItems, stringsItems, List.append_nil]
    exact hv
  | v :: w :: vs, h => by
    have hv := stringify_spells v fun t ht => h t (List.mem_append_left _ ht)
    have hvs := stringifyItems_spells (w :: vs) fun t ht => h t (List.mem_append_right _ ht)
    have hcomma := hv.append (.token (s := [unit ',']) (by decide))
    rw [List.append_nil] at hcomma
    rw [Json.stringifyItems, join_cons _ _ (by rw [Json.stringifyItems]; exact List.cons_ne_nil _ _)]
    exact hcomma.append hvs

theorem stringifyFields_spells : ∀ fs : List (Str × Json), (∀ t ∈ numbersFields fs, Unquoted t) →
    Spells (join [unit ','] (Json.stringifyFields fs)) (stringsFields fs)
  | [], _ => .token (by decide)
  | [(k, v)], h => by
    have hv := stringify_spells v fun t ht => h t (List.mem_append_left _ ht)
    have hcolon := (Spells.quote k).append (.token (s := [unit ':']) (by decide))
    rw [List.append_nil] at hcolon
    rw [stringsFields, stringsFields, List.append_nil]
    exact hcolon.append hv
  | (k, v) :: (l, w) :: fs, h => by
    have hv := stringify_spells v fun t ht => h t (List.mem_append_left _ ht)
    have hfs := stringifyFields_spells ((l, w) :: fs) fun t ht => h t (List.mem_append_right _ ht)
    have hcolon := (Spells.quote k).append (.token (s := [unit ':']) (by decide))
    rw [List.append_nil] at hcolon
    have hcomma := (hcolon.append hv).append (.token (s := [unit ',']) (by decide))
    rw [List.append_nil] at hcomma
    rw [Json.stringifyFields, join_cons _ _ (by rw [Json.stringifyFields]; exact List.cons_ne_nil _ _)]
    exact hcomma.append hfs

end

end Js

end Antiproton
