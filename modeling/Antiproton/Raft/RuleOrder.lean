import Antiproton.Raft.ContactRules

/-!
# Antiproton.Raft.RuleOrder

What a contact rule means however it is stored and listed.

* `rulesOf_kept`: the rules written back are read as they were, those that ended left out.
* `old_matches`: a rule of the old form matches what it named, once what it names alone has its id.
* `winning_free_iff`: the winner does not depend on the order exactly if one rule beats every other that applies.
* `contact_rules`: these together.
-/

namespace Antiproton.ContactRules

open Js

/-! ## Words -/

section Words

theorem isWord_ofString (a b : String) : isWord (some (.ofString a)) b = decide (a = b) := by
  have hword : isWord (some (.ofString a)) b = (some (js a) == some (js b)) := rfl
  rw [hword, Bool.eq_iff_iff, beq_iff_eq, decide_eq_true_eq]
  exact ⟨fun h => js_injective (Option.some.inj h), fun h => by rw [h]⟩

theorem str_optional {s : Option Str} (h : s ≠ some []) : str (some (optional s)) = s := by
  cases s with
  | none => rfl
  | some s =>
    rw [optional, str, if_neg]
    rintro rfl
    exact h rfl

theorem str_ne_nil (v : Option Json) : str v ≠ some [] := by
  unfold str
  split
  · split
    · exact nofun
    · rename_i h
      exact fun hs => h (Option.some.inj hs)
  · exact nofun

theorem kindOf_word (k : ItemKind) : kindOf (some (.ofString k.word)) = some k := by
  unfold kindOf ITEM_KINDS
  simp only [List.find?_cons, isWord_ofString]
  cases k with
  | _ => rfl

theorem effectOf_word (e : Effect) : effectOf (some (.ofString e.word)) = some e := by
  unfold effectOf EFFECTS
  simp only [List.find?_cons, isWord_ofString]
  cases e with
  | _ => rfl

theorem typeOf_word (t : PersonType) : typeOf (some (.ofString t.word)) = some t := by
  unfold typeOf
  simp only [List.find?_cons, isWord_ofString]
  cases t with
  | _ => rfl

theorem typeOf_optional (t : Option PersonType) : typeOf (some (optional (t.map fun t => js t.word))) = t := by
  cases t with
  | none => rfl
  | some t => exact typeOf_word t

theorem kindOf_optional (k : Option ItemKind) : kindOf (some (optional (k.map fun k => js k.word))) = k := by
  cases k with
  | none => rfl
  | some k => exact kindOf_word k

end Words

/-! ## Written back and read again -/

/-- A subject as it is read: what is kept as absent is not an empty text. -/
def Subject.Stored : Subject → Prop
  | channel id _ => id ≠ some []
  | thread _ channelId _ => channelId ≠ some []
  | person id _ _ => id ≠ some []
  | kind _ | dms => True
  | legacy channelName sender _ => channelName ≠ some [] ∧ sender ≠ some []

theorem subjectOf_json {s : Subject} (h : s.Stored) : subjectOf (some s.json) = some s := by
  cases s with
  | channel id name =>
    simp [Subject.json, subjectOf, field_js, isWord_ofString, str_optional h, text]
  | thread id channelId ref =>
    simp [Subject.json, subjectOf, field_js, isWord_ofString, str_optional h, text]
  | person id type name =>
    simp [Subject.json, subjectOf, field_js, isWord_ofString, str_optional h, text, typeOf_optional]
  | kind value =>
    simp [Subject.json, subjectOf, field_js, isWord_ofString, kindOf_word]
  | dms =>
    simp [Subject.json, subjectOf, field_js, isWord_ofString]
  | legacy channel sender itemKind =>
    simp [Subject.json, subjectOf, field_js, isWord_ofString, str_optional h.1, str_optional h.2, kindOf_optional]

section Stored

variable (dateParse : Str → Option Int)

/-- A rule as it is read. -/
structure ContactRule.Stored (r : ContactRule) : Prop where
  id : r.id ≠ []
  subject : r.subject.Stored
  anytime : r.anytime = true → r.effect = .always
  until_ : ∀ t, r.until_ = some t → t ≠ [] ∧ (dateParse t).isSome = true
  note : r.note ≠ some []
  createdAt : r.createdAt ≠ some []

variable {dateParse} {r : ContactRule} {v : Json}

theorem subjectOf_stored {v : Option Json} {s : Subject} (h : subjectOf v = some s) : s.Stored := by
  unfold subjectOf at h
  split at h
  · dsimp only at h
    split at h
    · obtain ⟨name, -, rfl⟩ := Option.map_eq_some_iff.1 h
      exact str_ne_nil _
    split at h
    · obtain ⟨id, -, hid⟩ := Option.bind_eq_some_iff.1 h
      obtain ⟨ref, -, rfl⟩ := Option.map_eq_some_iff.1 hid
      exact str_ne_nil _
    split at h
    · obtain ⟨name, -, rfl⟩ := Option.map_eq_some_iff.1 h
      exact str_ne_nil _
    split at h
    · obtain ⟨k, -, rfl⟩ := Option.map_eq_some_iff.1 h
      exact trivial
    split at h
    · cases h
      exact trivial
    split at h
    · cases h
      exact ⟨str_ne_nil _, str_ne_nil _⟩
    · cases h
  · cases h

theorem oldSubject_stored {channel sender : Option Str} {kind : Option ItemKind} {s : Subject} (hc : channel ≠ some [])
    (hs : sender ≠ some []) (h : oldSubject channel sender kind = some s) : s.Stored := by
  unfold oldSubject at h
  dsimp only at h
  split at h
  · cases h
  split at h
  · cases h
    exact ⟨hc, hs⟩
  split at h
  · cases h
    exact nofun
  · cases h
    exact nofun
  · obtain ⟨k, -, rfl⟩ := Option.map_eq_some_iff.1 h
    exact trivial

theorem readRule_stored (h : r ∈ readRule dateParse v) : r.Stored dateParse := by
  unfold readRule at h
  split at h
  · dsimp only at h
    split at h
    · cases h
    · rename_i id hid
      have hne : id ≠ [] := by
        rintro rfl
        exact str_ne_nil _ hid
      split at h
      · split at h
        · cases h
        · rename_i effect heffect subject hsubject
          rw [List.mem_singleton] at h
          subst h
          refine ⟨hne, subjectOf_stored hsubject, ?_, ?_, str_ne_nil _, str_ne_nil _⟩
          · intro ha
            exact eq_of_beq (Bool.and_eq_true_iff.1 ha).2
          · intro t ht
            obtain ⟨hstr, hdate⟩ := Option.filter_eq_some_iff.1 ht
            refine ⟨?_, hdate⟩
            rintro rfl
            exact str_ne_nil _ hstr
      · split at h
        · cases h
        · rename_i subject hsubject
          rw [List.mem_singleton] at h
          subst h
          exact ⟨hne, oldSubject_stored (str_ne_nil _) (str_ne_nil _) hsubject, nofun, nofun, str_ne_nil _, nofun⟩
  · cases h

theorem readRule_json (h : r.Stored dateParse) : readRule dateParse r.json = [r] := by
  obtain ⟨id, effect, subject, anytime, until_, note, createdAt⟩ := r
  have hid : id ≠ [] := h.id
  have hany : (anytime && effect == .always) = anytime := by
    cases anytime with
    | false => rfl
    | true =>
      have heffect : effect = .always := h.anytime rfl
      rw [heffect]
      rfl
  have huntil : until_ ≠ some [] := by
    rintro rfl
    exact (h.until_ [] rfl).1 rfl
  have hfilter : until_.filter (fun t => (dateParse t).isSome) = until_ := by
    cases until_ with
    | none => rfl
    | some t => exact Option.filter_some_pos (h.until_ t rfl).2
  have hstr : str (some (.str id)) = some id := if_neg hid
  have hbool : (some (Json.bool anytime) == some (.bool true)) = anytime := by
    cases anytime with
    | _ => rfl
  simp [ContactRule.json, readRule, field_js, hstr, effectOf_word, subjectOf_json h.subject, str_optional huntil, hfilter,
    str_optional h.note, str_optional h.createdAt, hbool, hany]

theorem rulesOf_stored (raw : Json) (h : r ∈ rulesOf dateParse raw) : r.Stored dateParse := by
  unfold rulesOf at h
  split at h
  · obtain ⟨v, -, hv⟩ := List.mem_flatMap.1 h
    exact readRule_stored hv
  · cases h

theorem rulesOf_json {rules : List ContactRule} (h : ∀ r ∈ rules, r.Stored dateParse) :
    rulesOf dateParse (.arr (rules.map (·.json))) = rules := by
  induction rules with
  | nil => rfl
  | cons r rules ih =>
    have hrest := ih fun x hx => h x (List.mem_cons_of_mem _ hx)
    unfold rulesOf at hrest ⊢
    dsimp only at hrest ⊢
    rw [List.map_cons, List.flatMap_cons, readRule_json (h r List.mem_cons_self), hrest]
    rfl

/-- The rules written back are read as they were, those that ended left out. -/
theorem rulesOf_kept (raw : Json) (now : Int) : rulesOf dateParse (keptRules dateParse (rulesOf dateParse raw) now) =
    (rulesOf dateParse raw).filter fun r => isActive dateParse r now :=
  rulesOf_json fun _ hr => rulesOf_stored raw (List.mem_of_mem_filter hr)

end Stored

/-! ## Rules of the old form -/

/-- What a rule of the old form named. -/
structure Named where
  channel : Option Str
  sender : Option Str
  kind : Option ItemKind

def Named.ofFields (fields : List (Str × Json)) : Named :=
  let o := fun name : String => (Json.obj fields).field? (js name)
  ⟨str (o "channel"), str (o "sender"), kindOf (o "kind")⟩

namespace Named

/-- Something is named. -/
def Any (n : Named) : Prop := n.channel.isSome = true ∨ n.sender.isSome = true ∨ n.kind.isSome = true

/-- One thing alone, by its name. -/
def Waits (n : Named) : Prop := n.kind = none ∧ (n.channel = none ∨ n.sender = none)

/-- An item that everything named holds of. -/
def Holds (n : Named) (t : Target) : Prop :=
  t.kind.isSome = true ∧ (∀ c, n.channel = some c → t.channelName = some c) ∧
    (∀ s, n.sender = some s → t.senderName = some s) ∧ ∀ k, n.kind = some k → t.kind = some k

end Named

section OldForm

variable {n : Named} {s : Subject} {r : ContactRule} {t : Target}

theorem named_eq {A : Type} [BEq A] [LawfulBEq A] (a b : Option A) :
    (a.isNone || a == b) = true ↔ ∀ x, a = some x → b = some x := by
  cases a with
  | none => exact iff_of_true rfl nofun
  | some x =>
    rw [Option.isNone_some, Bool.false_or, beq_iff_eq]
    refine ⟨fun h y hy => ?_, fun h => (h x rfl).symm⟩
    rw [← h, hy]

theorem legacy_match (n : Named) (t : Target) (id : Str) (note : Option Str) :
    isMatch ⟨id, .mute, .legacy n.channel n.sender n.kind, false, none, note, none⟩ t = true ↔ n.Holds t := by
  have hunfold : isMatch ⟨id, .mute, .legacy n.channel n.sender n.kind, false, none, note, none⟩ t =
      (t.kind.isSome && (n.channel.isNone || n.channel == t.channelName) && (n.sender.isNone || n.sender == t.senderName) &&
        (n.kind.isNone || n.kind == t.kind)) := rfl
  rw [hunfold, Bool.and_eq_true, Bool.and_eq_true, Bool.and_eq_true, named_eq, named_eq, named_eq, and_assoc, and_assoc]
  rfl

theorem oldSubject_none : oldSubject n.channel n.sender n.kind = none ↔ ¬ n.Any := by
  obtain ⟨channel, sender, kind⟩ := n
  cases channel <;> cases sender <;> cases kind <;> simp [oldSubject, Named.Any]

/-- A rule of the old form matches what it named, unless it waits for an id. -/
theorem oldSubject_match {id : Str} {note : Option Str} (h : oldSubject n.channel n.sender n.kind = some s) :
    isMatch ⟨id, .mute, s, false, none, note, none⟩ t = true ↔ ¬ n.Waits ∧ n.Holds t := by
  have hlegacy := legacy_match n t id note
  obtain ⟨channel, sender, kind⟩ := n
  -- by what is named: nothing, one thing, or several
  cases channel with
  | none =>
    cases sender with
    | none =>
      cases kind with
      | none => cases h
      | some k =>
        cases h
        have hone : isMatch ⟨id, .mute, .kind k, false, none, note, none⟩ t = (t.kind == some k) := rfl
        rw [hone, beq_iff_eq]
        refine ⟨fun ht => ⟨fun hw => (nomatch hw.1), ⟨?_, nofun, nofun, fun x hx => ht.trans hx⟩⟩, fun hx => hx.2.2.2.2 k rfl⟩
        rw [ht]
        rfl
    | some sender =>
      cases kind with
      | none =>
        cases h
        exact iff_of_false Bool.false_ne_true fun hx => hx.1 ⟨rfl, .inl rfl⟩
      | some k =>
        cases h
        rw [hlegacy]
        exact (and_iff_right fun hw => nomatch hw.1).symm
  | some channel =>
    cases sender with
    | none =>
      cases kind with
      | none =>
        cases h
        exact iff_of_false Bool.false_ne_true fun hx => hx.1 ⟨rfl, .inr rfl⟩
      | some k =>
        cases h
        rw [hlegacy]
        exact (and_iff_right fun hw => nomatch hw.1).symm
    | some sender =>
      have hsome : s = .legacy (some channel) (some sender) kind := by
        cases kind with
        | none => exact (Option.some.inj h).symm
        | some k => exact (Option.some.inj h).symm
      rw [hsome, hlegacy]
      exact (and_iff_right fun hw => hw.2.elim nofun nofun).symm

/-- A rule of the old form is read as one that matches what it named, unless it waits for an id. -/
theorem old_form (dateParse : Str → Option Int) {fields : List (Str × Json)} {id : Str}
    (hid : str ((Json.obj fields).field? (js "id")) = some id) (he : effectOf ((Json.obj fields).field? (js "effect")) = none) :
    (¬ (Named.ofFields fields).Any ∧ readRule dateParse (.obj fields) = []) ∨
      ∃ r, readRule dateParse (.obj fields) = [r] ∧ r.id = id ∧ r.effect = .mute ∧
        ∀ t, isMatch r t = true ↔ ¬ (Named.ofFields fields).Waits ∧ (Named.ofFields fields).Holds t := by
  unfold readRule
  dsimp only
  rw [hid, he]
  dsimp only
  cases hs : oldSubject (Named.ofFields fields).channel (Named.ofFields fields).sender (Named.ofFields fields).kind with
  | none =>
    refine .inl ⟨oldSubject_none.1 hs, ?_⟩
    unfold Named.ofFields at hs
    rw [hs]
  | some s =>
    refine .inr ⟨⟨id, .mute, s, false, none, str ((Json.obj fields).field? (js "note")), none⟩, ?_, rfl, rfl,
      fun t => oldSubject_match hs⟩
    unfold Named.ofFields at hs
    rw [hs]

end OldForm

/-! ## The winner -/

section Winner

variable {N : Type} [LinearOrder N] [Zero N] (dateParse : Str → Option Int) (number : Str → Option N)

/-- A rule that may decide: it is active, and it matches. -/
def applies (t : Target) (now : Int) (r : ContactRule) : Bool := isActive dateParse r now && isMatch r t

/-- One that applies and beats every other that does. -/
def Foremost (rules : List ContactRule) (t : Target) (now : Int) (w : ContactRule) : Prop :=
  (w ∈ rules ∧ applies dateParse t now w = true) ∧
    ∀ r ∈ rules, applies dateParse t now r = true → r ≠ w → newerOrMoreSpecific dateParse number w r = true

variable {dateParse number} {rules before after : List ContactRule} {t : Target} {now : Int} {a b r w : ContactRule}

theorem winning_eq : winningRule dateParse number rules t now =
    Best.pick (newerOrMoreSpecific dateParse number) (rules.filter (applies dateParse t now)) := by
  rw [winningRule, Best.pick, List.foldl_filter]
  congr 1
  funext best r
  rw [← Bool.not_and]
  unfold applies
  cases isActive dateParse r now && isMatch r t with
  | false => rfl
  | true =>
    cases best with
    | _ => rfl

theorem newer_higher (h : b.subject.specificity < a.subject.specificity) :
    newerOrMoreSpecific dateParse number a b = true := by
  rw [newerOrMoreSpecific, if_pos (by omega)]
  exact decide_eq_true h

theorem newer_lower (h : a.subject.specificity < b.subject.specificity) :
    newerOrMoreSpecific dateParse number a b = false := by
  rw [newerOrMoreSpecific, if_pos (by omega)]
  exact decide_eq_false (by omega)

theorem later_asymm {ta tb : Option Int} (h : isLater ta tb = true) : isLater tb ta = false := by
  cases ta with
  | none => cases h
  | some ta =>
    cases tb with
    | none => rfl
    | some tb =>
      have hlt : tb < ta := of_decide_eq_true h
      exact decide_eq_false (by omega)

theorem later_trans {ta tb tc : Option Int} (h : isLater ta tb = true) (h' : isLater tb tc = true) : isLater ta tc = true := by
  cases ta with
  | none => cases h
  | some ta =>
    cases tb with
    | none => cases h'
    | some tb =>
      cases tc with
      | none => rfl
      | some tc =>
        have hlt : tb < ta := of_decide_eq_true h
        have hlt' : tc < tb := of_decide_eq_true h'
        exact decide_eq_true (by omega)

theorem later_total {ta tb : Option Int} (h : ta ≠ tb) : isLater ta tb = true ∨ isLater tb ta = true := by
  cases ta with
  | none =>
    cases tb with
    | none => exact absurd rfl h
    | some tb => exact .inr rfl
  | some ta =>
    cases tb with
    | none => exact .inl rfl
    | some tb =>
      have hne : ta ≠ tb := fun heq => h (congrArg some heq)
      rcases Int.lt_or_gt_of_ne hne with hlt | hgt
      · exact .inr (decide_eq_true hlt)
      · exact .inl (decide_eq_true hgt)

/-- Of one specificity, what decides is the time, and then the number of the id. -/
theorem newer_level (h : a.subject.specificity = b.subject.specificity) :
    newerOrMoreSpecific dateParse number a b = true ↔ ∃ ta tb, made dateParse a = some ta ∧ made dateParse b = some tb ∧
      (ta ≠ tb ∧ isLater ta tb = true ∨ ta = tb ∧ idNumber number b.id < idNumber number a.id) := by
  rw [newerOrMoreSpecific, if_neg (not_not_intro h)]
  cases ha : made dateParse a with
  | none => exact iff_of_false Bool.false_ne_true nofun
  | some ta =>
    cases hb : made dateParse b with
    | none => exact iff_of_false Bool.false_ne_true nofun
    | some tb =>
      dsimp only
      by_cases htime : ta = tb
      · rw [if_neg (not_not_intro htime), decide_eq_true_eq]
        refine ⟨fun hn => ⟨ta, tb, rfl, rfl, .inr ⟨htime, hn⟩⟩, ?_⟩
        rintro ⟨_, _, ⟨⟩, ⟨⟩, ⟨hne, -⟩ | ⟨-, hn⟩⟩
        · exact absurd htime hne
        · exact hn
      · rw [if_pos htime]
        refine ⟨fun hlater => ⟨ta, tb, rfl, rfl, .inl ⟨htime, hlater⟩⟩, ?_⟩
        rintro ⟨_, _, ⟨⟩, ⟨⟩, ⟨-, hlater⟩ | ⟨heq, -⟩⟩
        · exact hlater
        · exact absurd heq htime

theorem newer_asymm (a b : ContactRule) (h : newerOrMoreSpecific dateParse number a b = true) :
    newerOrMoreSpecific dateParse number b a = false := by
  rcases Nat.lt_trichotomy a.subject.specificity b.subject.specificity with hs | hs | hs
  · rw [newer_lower hs] at h
    cases h
  · obtain ⟨ta, tb, hta, htb, hwins⟩ := (newer_level hs).1 h
    refine Bool.eq_false_iff.2 fun hba => ?_
    obtain ⟨tb', ta', htb', hta', hloses⟩ := (newer_level hs.symm).1 hba
    rw [hta] at hta'
    rw [htb] at htb'
    cases hta'
    cases htb'
    rcases hwins with ⟨hne, hlater⟩ | ⟨rfl, hn⟩
    · rcases hloses with ⟨-, hearlier⟩ | ⟨heq, -⟩
      · rw [later_asymm hlater] at hearlier
        cases hearlier
      · exact hne heq.symm
    · rcases hloses with ⟨hne, -⟩ | ⟨-, hn'⟩
      · exact hne rfl
      · exact lt_asymm hn hn'
  · exact newer_lower hs

theorem newer_trans (a b c : ContactRule) (hab : newerOrMoreSpecific dateParse number a b = true)
    (hbc : newerOrMoreSpecific dateParse number b c = true) : newerOrMoreSpecific dateParse number a c = true := by
  have hrank : ∀ {x y : ContactRule}, newerOrMoreSpecific dateParse number x y = true →
      y.subject.specificity ≤ x.subject.specificity := by
    intro x y hxy
    by_contra hlt
    rw [newer_lower (by omega)] at hxy
    cases hxy
  have hne : ∀ {ta tb : Option Int}, isLater ta tb = true → ta ≠ tb := by
    rintro ta tb hlater rfl
    rw [later_asymm hlater] at hlater
    cases hlater
  rcases Nat.lt_or_ge c.subject.specificity a.subject.specificity with hlt | hge
  · exact newer_higher hlt
  · have h₁ := hrank hab
    have h₂ := hrank hbc
    obtain ⟨ta, tb, hta, htb, hwins⟩ := (newer_level (by omega)).1 hab
    obtain ⟨tb', tc, htb', htc, hwins'⟩ := (newer_level (by omega)).1 hbc
    rw [htb] at htb'
    cases htb'
    refine (newer_level (by omega)).2 ⟨ta, tc, hta, htc, ?_⟩
    rcases hwins with ⟨-, hlater⟩ | ⟨rfl, hn⟩
    · rcases hwins' with ⟨-, hlater'⟩ | ⟨rfl, -⟩
      · have hboth := later_trans hlater hlater'
        exact .inl ⟨hne hboth, hboth⟩
      · exact .inl ⟨hne hlater, hlater⟩
    · rcases hwins' with hlater' | ⟨rfl, hn'⟩
      · exact .inl hlater'
      · exact .inr ⟨rfl, hn'.trans hn⟩

/-- Of two rules of different numbers whose times can be read, one beats the other. -/
theorem newer_total (ha : (made dateParse a).isSome = true) (hb : (made dateParse b).isSome = true)
    (hn : idNumber number a.id ≠ idNumber number b.id) :
    newerOrMoreSpecific dateParse number a b = true ∨ newerOrMoreSpecific dateParse number b a = true := by
  obtain ⟨ta, hta⟩ := Option.isSome_iff_exists.1 ha
  obtain ⟨tb, htb⟩ := Option.isSome_iff_exists.1 hb
  rcases Nat.lt_trichotomy a.subject.specificity b.subject.specificity with hs | hs | hs
  · exact .inr (newer_higher hs)
  · rw [newer_level hs, newer_level hs.symm]
    by_cases ht : ta = tb
    · rcases lt_or_gt_of_ne hn with hlt | hgt
      · exact .inr ⟨tb, ta, htb, hta, .inr ⟨ht.symm, hlt⟩⟩
      · exact .inl ⟨ta, tb, hta, htb, .inr ⟨ht, hgt⟩⟩
    · rcases later_total ht with hlater | hlater
      · exact .inl ⟨ta, tb, hta, htb, .inl ⟨ht, hlater⟩⟩
      · exact .inr ⟨tb, ta, htb, hta, .inl ⟨Ne.symm ht, hlater⟩⟩
  · exact .inl (newer_higher hs)

theorem top_iff : Best.Top (newerOrMoreSpecific dateParse number) (rules.filter (applies dateParse t now)) w ↔
    Foremost dateParse number rules t now w := by
  rw [Best.Top, Foremost, List.mem_filter]
  refine and_congr_right fun _ => ⟨fun h r hr ha => h r (List.mem_filter.2 ⟨hr, ha⟩), fun h r hr => ?_⟩
  obtain ⟨hmem, ha⟩ := List.mem_filter.1 hr
  exact h r hmem ha

theorem winning_none_iff : winningRule dateParse number rules t now = none ↔
    ∀ r ∈ rules, applies dateParse t now r = false := by
  rw [winning_eq, Best.pick_eq_none, List.filter_eq_nil_iff]
  exact forall₂_congr fun r _ => iff_of_eq (Bool.not_eq_true _)

/-- The order does not matter exactly if nothing applies or one rule beats every other that does. -/
theorem winning_free_iff (hids : (rules.map (·.id)).Nodup) :
    (∀ rules', rules'.Perm rules → winningRule dateParse number rules' t now = winningRule dateParse number rules t now) ↔
      (∀ r ∈ rules, applies dateParse t now r = false) ∨ ∃ w, Foremost dateParse number rules t now w := by
  have hnodup : (rules.filter (applies dateParse t now)).Nodup := (List.Nodup.of_map _ hids).filter _
  have hempty : rules.filter (applies dateParse t now) = [] ↔ ∀ r ∈ rules, applies dateParse t now r = false := by
    rw [List.filter_eq_nil_iff]
    exact forall₂_congr fun r _ => iff_of_eq (Bool.not_eq_true _)
  have hasymm : ∀ a b, newerOrMoreSpecific dateParse number a b = true → newerOrMoreSpecific dateParse number b a = false :=
    newer_asymm
  have hfree := Best.pick_free_iff hasymm hnodup
  simp only [top_iff, hempty] at hfree
  rw [← hfree]
  constructor
  · intro h l hl
    -- those that apply, in the order of `l`, and then the others
    have hperm : (l ++ rules.filter fun r => !applies dateParse t now r).Perm rules :=
      (hl.append_right _).trans (List.filter_append_perm _ rules)
    have hwin := h _ hperm
    rw [winning_eq, winning_eq, List.filter_append] at hwin
    have hl' : l.filter (applies dateParse t now) = l :=
      List.filter_eq_self.2 fun r hr => (List.mem_filter.1 (hl.mem_iff.1 hr)).2
    have hrest : (rules.filter fun r => !applies dateParse t now r).filter (applies dateParse t now) = [] := by
      rw [List.filter_eq_nil_iff]
      intro r hr
      rw [Bool.not_eq_true]
      exact (Bool.not_eq_true' _).mp (List.mem_filter.1 hr).2
    rwa [hl', hrest, List.append_nil] at hwin
  · intro h rules' hperm
    rw [winning_eq, winning_eq]
    exact h _ (hperm.filter _)

/-- Ids of different numbers and times that can be read, or none, are enough. -/
theorem winning_free (hnumbers : (rules.map fun r => idNumber number r.id).Nodup)
    (htimes : ∀ r ∈ rules, (made dateParse r).isSome = true) (rules' : List ContactRule) (hperm : rules'.Perm rules) :
    winningRule dateParse number rules' t now = winningRule dateParse number rules t now := by
  have hids : (rules.map (·.id)).Nodup := by
    refine List.Nodup.of_map (idNumber number) ?_
    rw [List.map_map]
    exact hnumbers
  refine (winning_free_iff hids).2 ?_ rules' hperm
  by_cases hempty : rules.filter (applies dateParse t now) = []
  · refine .inl fun r hr => ?_
    exact Bool.eq_false_iff.2 (List.filter_eq_nil_iff.1 hempty r hr)
  · have htop : ∃ w, Best.Top (newerOrMoreSpecific dateParse number) (rules.filter (applies dateParse t now)) w := by
      refine Best.exists_top newer_trans (fun a ha b hb hne => ?_) hempty
      have ha' := (List.mem_filter.1 ha).1
      have hb' := (List.mem_filter.1 hb).1
      exact newer_total (htimes a ha') (htimes b hb') fun heq => hne (List.inj_on_of_nodup_map hnumbers ha' hb' heq)
    obtain ⟨w, hw⟩ := htop
    exact .inr ⟨w, top_iff.1 hw⟩

theorem winning_without (h : applies dateParse t now r = false) :
    winningRule dateParse number (before ++ r :: after) t now = winningRule dateParse number (before ++ after) t now := by
  rw [winning_eq, winning_eq, List.filter_append, List.filter_append, List.filter_cons_of_neg (by rw [h]; exact Bool.false_ne_true)]

/-- A rule less specific than the winner does not matter. -/
theorem winning_less (hrank : r.subject.specificity < w.subject.specificity)
    (h : winningRule dateParse number (before ++ r :: after) t now = some w ∨
      winningRule dateParse number (before ++ after) t now = some w) :
    winningRule dateParse number (before ++ r :: after) t now = winningRule dateParse number (before ++ after) t now := by
  cases ha : applies dateParse t now r with
  | false => exact winning_without ha
  | true =>
    rw [winning_eq, winning_eq, List.filter_append, List.filter_append, List.filter_cons_of_pos ha] at h ⊢
    have hhigh : ∀ a b : ContactRule, b.subject.specificity < a.subject.specificity →
        newerOrMoreSpecific dateParse number a b = true := fun _ _ => newer_higher
    have hlow : ∀ a b : ContactRule, a.subject.specificity < b.subject.specificity →
        newerOrMoreSpecific dateParse number a b = false := fun _ _ => newer_lower
    exact Best.pick_leave hhigh hlow ⟨h, hrank⟩

theorem winning_applies (h : winningRule dateParse number rules t now = some w) :
    w ∈ rules ∧ applies dateParse t now w = true := by
  rw [winning_eq] at h
  exact List.mem_filter.1 (Best.pick_mem h)

/-- What asks for less on a channel or a thread does not decide a mention of the owner, nor a channel's rule a direct message. -/
theorem winning_spares (h : winningRule dateParse number rules t now = some w) :
    (t.mention = true → w.effect ≠ .always → (∀ id name, w.subject ≠ .channel id name) ∧
      ∀ id channelId ref, w.subject ≠ .thread id channelId ref) ∧
    (t.dm = true → ∀ id name, w.subject ≠ .channel id name) := by
  have hmatch : isMatch w t = true := (Bool.and_eq_true_iff.1 (winning_applies h).2).2
  refine ⟨fun hm he => ⟨fun id name hs => ?_, fun id channelId ref hs => ?_⟩, fun hdm id name hs => ?_⟩
  · have heffect : (w.effect != .always) = true := bne_iff_ne.2 he
    simp [isMatch, hs, hm, heffect] at hmatch
  · have heffect : (w.effect != .always) = true := bne_iff_ne.2 he
    simp [isMatch, hs, hm, heffect] at hmatch
  · simp [isMatch, hs, hdm] at hmatch

end Winner

/-- What a contact rule means does not depend on how it is stored, nor the one that decides on more than those that apply. -/
theorem contact_rules {N : Type} [LinearOrder N] [Zero N] (dateParse : Str → Option Int) (number : Str → Option N) :
    (∀ raw now, rulesOf dateParse (keptRules dateParse (rulesOf dateParse raw) now) =
      (rulesOf dateParse raw).filter fun r => isActive dateParse r now) ∧
    (∀ fields id, str ((Json.obj fields).field? (js "id")) = some id →
      effectOf ((Json.obj fields).field? (js "effect")) = none →
      (¬ (Named.ofFields fields).Any ∧ readRule dateParse (.obj fields) = []) ∨
        ∃ r, readRule dateParse (.obj fields) = [r] ∧ r.id = id ∧ r.effect = .mute ∧
          ∀ t, isMatch r t = true ↔ ¬ (Named.ofFields fields).Waits ∧ (Named.ofFields fields).Holds t) ∧
    ∀ (rules : List ContactRule) (t : Target) (now : Int),
      ((rules.map (·.id)).Nodup → ((∀ rules', rules'.Perm rules →
          winningRule dateParse number rules' t now = winningRule dateParse number rules t now) ↔
        (∀ r ∈ rules, applies dateParse t now r = false) ∨ ∃ w, Foremost dateParse number rules t now w)) ∧
      ((rules.map fun r => idNumber number r.id).Nodup → (∀ r ∈ rules, (made dateParse r).isSome = true) →
        ∀ rules', rules'.Perm rules →
          winningRule dateParse number rules' t now = winningRule dateParse number rules t now) ∧
      (winningRule dateParse number rules t now = none ↔ ∀ r ∈ rules, applies dateParse t now r = false) ∧
      (∀ before r after, rules = before ++ r :: after →
        (applies dateParse t now r = false ∨ ∃ w, r.subject.specificity < w.subject.specificity ∧
          (winningRule dateParse number rules t now = some w ∨
            winningRule dateParse number (before ++ after) t now = some w)) →
        winningRule dateParse number rules t now = winningRule dateParse number (before ++ after) t now) ∧
      ∀ w, winningRule dateParse number rules t now = some w →
        (t.mention = true → w.effect ≠ .always → (∀ id name, w.subject ≠ .channel id name) ∧
          ∀ id channelId ref, w.subject ≠ .thread id channelId ref) ∧
        (t.dm = true → ∀ id name, w.subject ≠ .channel id name) := by
  refine ⟨rulesOf_kept, fun fields id hid he => old_form dateParse hid he, fun rules t now => ⟨winning_free_iff, winning_free,
    winning_none_iff, ?_, fun w => winning_spares⟩⟩
  rintro before r after rfl (happ | ⟨w, hrank, hwin⟩)
  · exact winning_without happ
  · exact winning_less hrank hwin

/-- Two rules made before times were kept, whose ids hold no number. -/
def unnumbered : List ContactRule :=
  [⟨js "ra", .mute, .kind .task, false, none, none, none⟩, ⟨js "rb", .mute, .kind .task, false, none, none, none⟩]

/-- An item of the kind the two rules are about. -/
def task : Target := ⟨none, none, false, false, false, none, some .task, none, none⟩

/-- `Number` reads no number in `a` and in `b`: the first of the two decides. -/
theorem unnumbered_order : (unnumbered.map (·.id)).Nodup ∧
    ∃ rules', rules'.Perm unnumbered ∧
      winningRule (fun _ => none) (fun _ => (none : Option Int)) rules' task 0 ≠
        winningRule (fun _ => none) (fun _ => (none : Option Int)) unnumbered task 0 := by
  refine ⟨by decide +kernel, unnumbered.reverse, List.reverse_perm _, by decide +kernel⟩

end Antiproton.ContactRules
