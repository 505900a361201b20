import Antiproton.Runtime.AnswerWalk

/-!
# Antiproton.Runtime.AnswerCheck

When the check of an answer says what JSON Schema says.

* `Valid`: an answer satisfies a schema under JSON Schema's meaning of the checked keywords.
* `schema_right`: the check is right but for three kinds of inputs.
* `answers_checked`: what is accepted is checked, and rightly but for those.
-/

namespace Antiproton.AnswerCheck

open Js

/-! ## What JSON Schema says -/

/-- A value is of a type of JSON Schema. -/
inductive HasType : Json → String → Prop
  | null : HasType .null "null"
  | boolean (b : Bool) : HasType (.bool b) "boolean"
  | number (text : Str) : HasType (.num text) "number"
  | integer {text : Str} : isInteger text = true → HasType (.num text) "integer"
  | string (s : Str) : HasType (.str s) "string"
  | array (items : List Json) : HasType (.arr items) "array"
  | object (fields : Fields) : HasType (.obj fields) "object"

/-- The checked keywords of one schema hold of one value; two values are equal whatever the order of keys in them. -/
structure Holds (schema : Fields) (v : Json) : Prop where
  type : ∀ t, get schema "type" = some t → ∃ name, .ofString name ∈ listOf t ∧ HasType v name
  enum : ∀ items, get schema "enum" = some (.arr items) → ∃ e ∈ items, e.canon = v.canon
  required : ∀ names, get schema "required" = some (.arr names) → ∀ k, .str k ∈ names → ∀ fields, v = .obj fields →
    ((Json.obj fields).field? k).isSome = true

def Valid (schema : Fields) (v : Json) : Prop := ∀ sub x, Applied schema v sub x → Holds sub x

/-! ## The checks of one place -/

section Checks

variable {schema fields : Fields} {v : Json} {name : String}

theorem hasType_iff : HasType v name ↔ name = (Value.json v).typeOf ∨
    name = "integer" ∧ (match v with | .num text => isInteger text | _ => false) = true := by
  constructor
  · intro h
    cases h with
    | integer hint => exact .inr ⟨rfl, hint⟩
    | _ => exact .inl rfl
  · rintro (rfl | ⟨rfl, h⟩)
    · cases v with
      | null => exact .null
      | bool b => exact .boolean b
      | num text => exact .number text
      | str s => exact .string s
      | arr items => exact .array items
      | obj fields => exact .object fields
    · cases v with
      | num text => exact .integer h
      | _ => cases h

theorem mem_texts {vs : List Json} {s : Str} :
    s ∈ vs.filterMap (fun x => match x with | .str s => some s | _ => none) ↔ .str s ∈ vs := by
  rw [List.mem_filterMap]
  constructor
  · rintro ⟨x, hmem, hx⟩
    cases x with
    | str s' =>
      cases hx
      exact hmem
    | _ => cases hx
  · exact fun h => ⟨_, h, rfl⟩

theorem typeFits_iff : typeFits schema (.json v) = true ↔
    ∀ t, get schema "type" = some t → ∃ name, .ofString name ∈ listOf t ∧ HasType v name := by
  unfold typeFits
  cases get schema "type" with
  | none => exact iff_of_true rfl nofun
  | some t =>
    dsimp only
    rw [List.any_eq_true]
    constructor
    · rintro ⟨want, hmem, hwant⟩ _ ⟨⟩
      rw [Bool.or_eq_true, Bool.and_eq_true, beq_iff_eq, beq_iff_eq] at hwant
      rcases hwant with rfl | ⟨rfl, hint⟩
      · exact ⟨_, mem_texts.1 hmem, hasType_iff.2 (.inl rfl)⟩
      · refine ⟨_, mem_texts.1 hmem, hasType_iff.2 (.inr ⟨rfl, ?_⟩)⟩
        cases v with
        | num text => exact hint
        | _ => cases hint
    · intro h
      obtain ⟨name, hmem, hname⟩ := h t rfl
      refine ⟨js name, mem_texts.2 hmem, ?_⟩
      rw [Bool.or_eq_true, Bool.and_eq_true, beq_iff_eq, beq_iff_eq]
      rcases hasType_iff.1 hname with rfl | ⟨rfl, hint⟩
      · exact .inl rfl
      · refine .inr ⟨rfl, ?_⟩
        cases v with
        | num text => exact hint
        | _ => cases hint

theorem enumFits_holds (hs : WrittenFields schema) (hv : Written v) (h : enumFits schema (.json v) = true) (items : List Json)
    (hget : get schema "enum" = some (.arr items)) : ∃ e ∈ items, e.canon = v.canon := by
  have hitems : Written (.arr items) := written_field hs hget
  rw [enumFits, enumOf, hget] at h
  obtain ⟨e, hmem, heq⟩ := List.any_eq_true.1 h
  refine ⟨e, hmem, ?_⟩
  have htext : e.stringify = v.stringify := Option.some.inj (eq_of_beq heq)
  have hparse := parse_stringify (writtenItems_mem hitems hmem)
  rw [htext, parse_stringify hv] at hparse
  rw [Option.some.inj hparse]

theorem requiredFits_json : requiredFits schema (.json v) = true ↔ ∀ names, get schema "required" = some (.arr names) →
    ∀ k, .str k ∈ names → ∀ fields, v = .obj fields →
      ((Json.obj fields).field? k).isSome = true ∨ (inherited k).isSome = true := by
  have hprop : ∀ fields k, ((Value.json (.obj fields)).prop? k).isSome = true ↔
      ((Json.obj fields).field? k).isSome = true ∨ (inherited k).isSome = true := by
    intro fields k
    rw [Value.prop?]
    cases (Json.obj fields).field? k with
    | none => exact (or_iff_right Bool.false_ne_true).symm
    | some x => exact iff_of_true rfl (.inl rfl)
  unfold requiredFits
  cases v with
  | obj fields =>
    have hobj : (Value.json (.obj fields)).isObject = true := rfl
    rw [hobj, Bool.not_true, Bool.false_or, List.all_eq_true, requiredOf]
    split
    · rename_i names hget
      rw [hget]
      constructor
      · rintro h _ ⟨⟩ k hk _ ⟨⟩
        exact (hprop fields k).1 (h k (mem_texts.2 hk))
      · intro h k hk
        exact (hprop fields k).2 (h names rfl k (mem_texts.1 hk) fields rfl)
    · rename_i hno
      exact iff_of_true (fun k hk => absurd hk List.not_mem_nil) fun names hget => absurd hget (hno names)
  | _ =>
    refine iff_of_true rfl fun names hget k hk fields hv => ?_
    cases hv

end Checks

/-! ## When the check is right -/

/-- Every place passes, and yet an object of the answer lacks a required name which every object inherits. -/
def PassesMissing (schema : Fields) (v : Json) : Prop :=
  (∀ p ∈ places schema (.json v) true, p.refused = false) ∧
    ∃ sub fields names k, Applied schema v sub (.obj fields) ∧ get sub "required" = some (.arr names) ∧ .str k ∈ names ∧
      (Json.obj fields).field? k = none ∧ (inherited k).isSome = true

/-- The answer is valid, and yet a place is refused: an `enum` lists it with its keys in another order, or what an object
inherits does not fit. -/
def RefusesValid (schema : Fields) (v : Json) : Prop :=
  Valid schema v ∧ ∃ p ∈ places schema (.json v) true, p.refused = true ∧
    (p.own = false ∨ enumFits p.schema p.value = false)

/-- The first place refused is a function that an object inherits. -/
def ShowsFunction (schema : Fields) (v : Json) : Prop :=
  ∃ p, (places schema (.json v) true).find? (·.refused) = some p ∧ p.value.isFunction = true

def AnswerSpec.Satisfied : AnswerSpec → Option Json → Prop
  | .choices texts, answer => ∃ s ∈ texts, answer = some (.str s)
  | .kind .yes_no, answer => ∃ b, answer = some (.bool b)
  | .kind .text, answer => ∃ s, answer = some (.str s)
  | .schema fields, answer => Valid fields (answer.getD .null)

/-- The check returns, and finds nothing exactly if the answer satisfies the specification. -/
def Right (spec : AnswerSpec) (answer : Option Json) : Prop :=
  answerProblem spec answer ≠ .throws ∧ (answerProblem spec answer = .fits ↔ spec.Satisfied answer)

def AnswerSpec.Slips : AnswerSpec → Option Json → Prop
  | .schema fields, answer =>
    PassesMissing fields (answer.getD .null) ∨ RefusesValid fields (answer.getD .null) ∨ ShowsFunction fields (answer.getD .null)
  | _, _ => False

section Right

variable {schema : Fields} {v : Json} {at_ : Str}

theorem fits_iff : schemaMismatch schema (.json v) at_ = .fits ↔ ∀ p ∈ places schema (.json v) true, p.refused = false := by
  have hverdict := verdict_eq schema (.json v) true at_
  have hnone : schemaMismatch schema (.json v) at_ = .fits ↔ (schemaMismatch schema (.json v) at_).verdict = none := by
    cases schemaMismatch schema (.json v) at_ with
    | fits => exact iff_of_true rfl rfl
    | _ => exact iff_of_false nofun nofun
  rw [hnone, hverdict, firstRefused, Option.map_eq_none_iff, List.find?_eq_none]
  exact forall₂_congr fun p _ => iff_of_eq (Bool.not_eq_true _)

theorem throws_iff : schemaMismatch schema (.json v) at_ = .throws ↔ ShowsFunction schema v := by
  have hverdict := verdict_eq schema (.json v) true at_
  have htrue : schemaMismatch schema (.json v) at_ = .throws ↔ (schemaMismatch schema (.json v) at_).verdict = some true := by
    cases schemaMismatch schema (.json v) at_ with
    | throws => exact iff_of_true rfl rfl
    | _ => exact iff_of_false nofun nofun
  rw [htrue, hverdict, firstRefused, Option.map_eq_some_iff]
  rfl

theorem passes_iff {p : Place} : p.refused = false ↔
    typeFits p.schema p.value = true ∧ enumFits p.schema p.value = true ∧ requiredFits p.schema p.value = true := by
  rw [Place.refused, Bool.not_eq_false', Bool.and_eq_true, Bool.and_eq_true, and_assoc]

/-- Where every place passes, the answer is valid unless a name is missing that every object inherits. -/
theorem passes_valid (hs : WrittenFields schema) (hv : Written v)
    (hpass : ∀ p ∈ places schema (.json v) true, p.refused = false) : Valid schema v ↔ ¬ PassesMissing schema v := by
  constructor
  · rintro hvalid ⟨-, sub, fields, names, k, happ, hget, hk, hnone, -⟩
    have hsome := (hvalid sub _ happ).required names hget k hk fields rfl
    rw [hnone] at hsome
    cases hsome
  · intro hno sub x happ
    obtain ⟨hsub, hx⟩ := written_applied happ hs hv
    obtain ⟨htype, henum, hrequired⟩ := passes_iff.1 (hpass _ (applied_places happ))
    refine ⟨typeFits_iff.1 htype, enumFits_holds hsub hx henum, ?_⟩
    rintro names hget k hk fields rfl
    rcases requiredFits_json.1 hrequired names hget k hk fields rfl with hown | hinherited
    · exact hown
    · rw [Option.isSome_iff_ne_none]
      exact fun hnone => hno ⟨hpass, sub, fields, names, k, happ, hget, hk, hnone, hinherited⟩

/-- A place refused of a valid answer is one that an object inherits, or one whose `enum` lists it in another order. -/
theorem valid_refused (hvalid : Valid schema v) {p : Place} (hmem : p ∈ places schema (.json v) true) (hp : p.refused = true) :
    p.own = false ∨ enumFits p.schema p.value = false := by
  cases hown : p.own with
  | false => exact .inl rfl
  | true =>
    refine .inr (Bool.eq_false_iff.2 fun henum => ?_)
    obtain ⟨y, hy, happ⟩ := (places_applied hmem hown).2 v rfl
    have hholds := hvalid _ y happ
    have hpass : p.refused = false := by
      rw [passes_iff]
      refine ⟨?_, henum, ?_⟩
      · rw [hy]
        exact typeFits_iff.2 hholds.type
      · rw [hy]
        exact requiredFits_json.2 fun names hget k hk fields heq => .inl (hholds.required names hget k hk fields heq)
    rw [hpass] at hp
    cases hp

theorem schema_right (hs : WrittenFields schema) (hv : Written v) :
    schemaMismatch schema (.json v) at_ ≠ .throws ∧ (schemaMismatch schema (.json v) at_ = .fits ↔ Valid schema v) ↔
      ¬ (PassesMissing schema v ∨ RefusesValid schema v ∨ ShowsFunction schema v) := by
  rw [Ne, throws_iff, fits_iff, not_or, not_or]
  constructor
  · rintro ⟨hreturns, hright⟩
    refine ⟨fun hmissing => ?_, fun hrefuses => ?_, hreturns⟩
    · exact (passes_valid hs hv hmissing.1).1 (hright.1 hmissing.1) hmissing
    · obtain ⟨hvalid, p, hmem, hp, -⟩ := hrefuses
      rw [hright.2 hvalid p hmem] at hp
      cases hp
  · rintro ⟨hmissing, hrefuses, hreturns⟩
    refine ⟨hreturns, fun hpass => (passes_valid hs hv hpass).2 hmissing, fun hvalid p hmem => ?_⟩
    rw [← Bool.not_eq_true]
    exact fun hp => hrefuses ⟨hvalid, p, hmem, hp, valid_refused hvalid hmem hp⟩

theorem refusal_json (text : Str) (answer : Option Json) : ∃ t, refusal text (answer.map .json) = .problem t := by
  cases answer with
  | _ => exact ⟨_, rfl⟩

theorem right_of_refusal {spec : AnswerSpec} {answer : Option Json} {text : Str}
    (h : answerProblem spec answer = refusal text (answer.map .json)) (hno : ¬ spec.Satisfied answer) : Right spec answer := by
  obtain ⟨t, ht⟩ := refusal_json text answer
  rw [ht] at h
  rw [Right, h]
  exact ⟨nofun, iff_of_false nofun hno⟩

theorem right_of_fits {spec : AnswerSpec} {answer : Option Json} (h : answerProblem spec answer = .fits)
    (hyes : spec.Satisfied answer) : Right spec answer := by
  rw [Right, h]
  exact ⟨nofun, iff_of_true rfl hyes⟩

theorem choices_right (texts : List Str) (answer : Option Json) : Right (.choices texts) answer := by
  cases answer with
  | none => exact right_of_refusal rfl nofun
  | some v =>
    cases v with
    | str s =>
      by_cases hmem : s ∈ texts
      · exact right_of_fits (if_pos hmem) ⟨s, hmem, rfl⟩
      · refine right_of_refusal (if_neg hmem) ?_
        rintro ⟨s', hmem', heq⟩
        cases heq
        exact hmem hmem'
    | _ => exact right_of_refusal rfl nofun

theorem kind_right (kind : Kind) (answer : Option Json) : Right (.kind kind) answer := by
  cases kind with
  | yes_no =>
    cases answer with
    | none => exact right_of_refusal rfl nofun
    | some v =>
      cases v with
      | bool b => exact right_of_fits rfl ⟨b, rfl⟩
      | _ => exact right_of_refusal rfl nofun
  | text =>
    cases answer with
    | none => exact right_of_refusal rfl nofun
    | some v =>
      cases v with
      | str s => exact right_of_fits rfl ⟨s, rfl⟩
      | _ => exact right_of_refusal rfl nofun

end Right

/-- A specification `{ schema }`. -/
def asked (schema : Fields) : Option Json := some (.obj [(js "schema", .obj schema)])

theorem asked_accepted {schema : Fields} (h : Checkable schema) : answerSpecOf (asked schema) = .ok (.schema schema) := by
  have hchoices : get [(js "schema", .obj schema)] "choices" = none := rfl
  have hkind : get [(js "schema", .obj schema)] "kind" = none := rfl
  have hschema : get [(js "schema", .obj schema)] "schema" = some (.obj schema) := rfl
  unfold answerSpecOf asked
  dsimp only
  rw [if_neg (by simp), hchoices, hkind, hschema]
  dsimp only
  rw [(problem_none_iff _ _).2 h]

/-- What is accepted has its checked keywords in forms that are checked, and is checked rightly but for three kinds of inputs. -/
theorem answers_checked (raw : Option Json) :
    (∀ schema, answerSpecOf raw = .ok (.schema schema) → Checkable schema) ∧
    (∀ schema, answerSpecOf (asked schema) = .ok (.schema schema) ↔ Checkable schema) ∧
    ((∀ v, raw = some v → Written v) → ∀ spec, answerSpecOf raw = .ok spec →
      ∀ answer : Option Json, (∀ v, answer = some v → Written v) → (Right spec answer ↔ ¬ spec.Slips answer)) := by
  refine ⟨fun schema h => (accepted_schema h).1, fun schema => ⟨fun h => (accepted_schema h).1, asked_accepted⟩, ?_⟩
  intro hraw spec hspec answer hanswer
  cases spec with
  | choices texts => exact iff_of_true (choices_right texts answer) not_false
  | kind kind => exact iff_of_true (kind_right kind answer) not_false
  | schema schema =>
    obtain ⟨-, fields, rfl, hget⟩ := accepted_schema hspec
    have hfields : Written (.obj fields) := hraw _ rfl
    have hschema : Written (.obj schema) := written_field hfields.2 hget
    refine schema_right hschema.2 ?_
    cases answer with
    | none => exact trivial
    | some v => exact hanswer v rfl

/-- A field `toString` is required. -/
def requires : Fields := [(js "required", .arr [.ofString "toString"])]

/-- A field `toString` is a string, where there is one. -/
def describes : Fields := [(js "properties", .obj [(js "toString", .obj [(js "type", .ofString "string")])])]

/-- The one value `{"a":1,"b":2}`. -/
def lists : Fields := [(js "enum", .arr [.obj [(js "a", .num (js "1")), (js "b", .num (js "2"))]])]

/-- `{}` passes where `toString` is required, `{"b":2,"a":1}` is refused where `{"a":1,"b":2}` is listed, and the check of
`{}` throws where `toString` is to be a string. -/
theorem slips_reached :
    (answerSpecOf (asked requires) = .ok (.schema requires) ∧ answerProblem (.schema requires) (some (.obj [])) = .fits ∧
      ¬ (AnswerSpec.schema requires).Satisfied (some (.obj []))) ∧
    (answerSpecOf (asked lists) = .ok (.schema lists) ∧
      answerProblem (.schema lists) (some (.obj [(js "b", .num (js "2")), (js "a", .num (js "1"))])) ≠ .fits ∧
      (AnswerSpec.schema lists).Satisfied (some (.obj [(js "b", .num (js "2")), (js "a", .num (js "1"))]))) ∧
    (answerSpecOf (asked describes) = .ok (.schema describes) ∧ answerProblem (.schema describes) (some (.obj [])) = .throws) := by
  have hflat : ∀ schema : Fields, objectOf schema "properties" = none → objectOf schema "items" = none → ∀ v at_,
      schemaMismatch schema v at_ = (typeMismatch schema v at_).next ((enumMismatch schema v at_).next
        ((requiredMismatch schema v at_).next .fits)) := by
    intro schema hproperties hitems v at_
    rw [schemaMismatch_eq, hproperties, hitems]
    rfl
  refine ⟨⟨asked_accepted ?_, ?_, ?_⟩, ⟨asked_accepted ?_, ?_, ?_⟩, asked_accepted ?_, ?_⟩
  · exact (problem_none_iff requires []).1 (by rw [schemaProblem]; rfl)
  · rw [answerProblem, hflat _ rfl rfl]
    decide
  · intro h
    have hrequired := (h _ _ (.self _ _)).required [.ofString "toString"] rfl (js "toString") List.mem_cons_self [] rfl
    cases hrequired
  · exact (problem_none_iff lists []).1 (by rw [schemaProblem]; rfl)
  · rw [answerProblem, hflat _ rfl rfl]
    decide
  · intro sub x happ
    cases happ with
    | self =>
      refine ⟨fun t hget => ?_, fun items hget => ?_, fun names hget => ?_⟩
      · cases hget
      · cases hget
        exact ⟨_, List.mem_cons_self, by decide⟩
      · cases hget
    | property hget => cases hget
  · have hdeep : propertiesProblem [(js "toString", .obj [(js "type", .ofString "string")])] [] = none := by
      rw [propertiesProblem, schemaProblem, propertiesProblem]
      rfl
    refine (problem_none_iff describes []).1 (schemaProblem_none.2 ⟨rfl, rfl, rfl, ?_, ?_⟩)
    · rintro _ ⟨⟩
      exact ⟨_, rfl, hdeep⟩
    · intro items hget
      cases hget
  · have hdeep : propertiesMismatch [(js "toString", .obj [(js "type", .ofString "string")])] (.json (.obj [])) (js "answer") =
        .throws := by
      have hprop : (Value.json (.obj [])).prop? (js "toString") = some .function := by decide
      rw [propertiesMismatch, hprop]
      dsimp only
      rw [hflat _ rfl rfl]
      rfl
    rw [answerProblem, schemaMismatch_eq]
    have hproperties : objectOf describes "properties" = some [(js "toString", .obj [(js "type", .ofString "string")])] := rfl
    have hobj : (Value.json (.obj [])).isObject = true := rfl
    rw [hproperties, Option.getD_some, Option.elim_some, if_pos hobj, hdeep]
    rfl

end Antiproton.AnswerCheck
