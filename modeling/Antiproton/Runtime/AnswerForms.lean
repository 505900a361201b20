import Antiproton.Runtime.AnswerSpec

/-!
# Antiproton.Runtime.AnswerForms

Which schemas `answerSpecOf` accepts: those whose checked keywords all have a form that is checked, at any depth.

* `problem_none_iff`: a schema is accepted exactly if it is `Checkable`.
-/

namespace Antiproton.AnswerCheck

open Js

/-! ## What is accepted -/

/-- The checked keywords of a schema have the forms that are checked. -/
structure KeywordsOk (schema : Fields) : Prop where
  type : ∀ t, get schema "type" = some t → listOf t ≠ [] ∧ ∀ x ∈ listOf t, ∃ name ∈ SCHEMA_TYPES, x = .ofString name
  enum : ∀ e, get schema "enum" = some e → ∃ items, e = .arr items
  required : ∀ r, get schema "required" = some r → ∃ names, r = .arr names ∧ ∀ x ∈ names, ∃ name, x = .str name
  properties : ∀ p, get schema "properties" = some p →
    ∃ properties, p = .obj properties ∧ ∀ k sub, (k, sub) ∈ properties → ∃ fields, sub = .obj fields
  items : ∀ i, get schema "items" = some i → ∃ fields, i = .obj fields

/-- A subschema under `properties` and `items`, at any depth. -/
inductive Sub : Fields → Fields → Prop
  | self (schema : Fields) : Sub schema schema
  | property {schema properties sub deep : Fields} {k : Str} : get schema "properties" = some (.obj properties) →
      (k, .obj sub) ∈ properties → Sub sub deep → Sub schema deep
  | items {schema items deep : Fields} : get schema "items" = some (.obj items) → Sub items deep → Sub schema deep

def Checkable (schema : Fields) : Prop := ∀ sub, Sub schema sub → KeywordsOk sub

section Accepted

variable {schema properties items : Fields} {at_ : Str}

theorem typeProblem_none : typeProblem schema at_ = none ↔ ∀ t, get schema "type" = some t →
    listOf t ≠ [] ∧ ∀ x ∈ listOf t, ∃ name ∈ SCHEMA_TYPES, x = .ofString name := by
  unfold typeProblem
  cases get schema "type" with
  | none => exact iff_of_true rfl nofun
  | some t =>
    have hall : (listOf t).all (fun x => SCHEMA_TYPES.any fun name => x == .ofString name) = true ↔
        ∀ x ∈ listOf t, ∃ name ∈ SCHEMA_TYPES, x = .ofString name := by
      simp only [List.all_eq_true, List.any_eq_true, beq_iff_eq]
    dsimp only
    simp only [hall]
    split
    · rename_i h
      refine iff_of_false nofun fun hok => ?_
      obtain ⟨hne, hnames⟩ := hok t rfl
      exact h.elim hne fun hn => hn hnames
    · rename_i h
      rw [not_or, not_not] at h
      refine iff_of_true rfl fun t' ht => ?_
      cases ht
      exact h

theorem enumProblem_none : enumProblem schema at_ = none ↔ ∀ e, get schema "enum" = some e → ∃ items, e = .arr items := by
  unfold enumProblem
  split
  · rename_i h
    rw [h]
    exact iff_of_true rfl nofun
  · rename_i items h
    rw [h]
    refine iff_of_true rfl fun e he => ?_
    cases he
    exact ⟨items, rfl⟩
  · rename_i e hno h
    refine iff_of_false nofun fun hok => ?_
    obtain ⟨items, rfl⟩ := hok e h
    exact hno items rfl

theorem isText_iff (x : Json) : isText x = true ↔ ∃ name, x = .str name := by
  cases x with
  | str s => exact iff_of_true rfl ⟨s, rfl⟩
  | _ => exact iff_of_false Bool.false_ne_true nofun

theorem requiredProblem_none : requiredProblem schema at_ = none ↔ ∀ r, get schema "required" = some r →
    ∃ names, r = .arr names ∧ ∀ x ∈ names, ∃ name, x = .str name := by
  unfold requiredProblem
  dsimp only
  split
  · rename_i h
    rw [h]
    exact iff_of_true rfl nofun
  · rename_i names h
    have hall : names.all isText = true ↔ ∀ x ∈ names, ∃ name, x = .str name := by
      simp only [List.all_eq_true, isText_iff]
    split
    · rename_i hnames
      refine iff_of_true rfl fun r hr => ?_
      rw [h] at hr
      cases hr
      exact ⟨names, rfl, hall.1 hnames⟩
    · rename_i hno
      refine iff_of_false nofun fun hok => ?_
      obtain ⟨names', hr, hnames⟩ := hok _ h
      cases hr
      exact hno (hall.2 hnames)
  · rename_i r hno h
    refine iff_of_false nofun fun hok => ?_
    obtain ⟨names, rfl, -⟩ := hok r h
    exact hno names rfl

theorem propertiesProblem_none : propertiesProblem properties at_ = none ↔
    (∀ k sub, (k, sub) ∈ properties → ∃ fields, sub = .obj fields) ∧
      ∀ k sub, (k, .obj sub) ∈ properties → schemaProblem sub (at_ ++ js ".properties." ++ k) = none := by
  induction properties with
  | nil =>
    rw [propertiesProblem]
    exact iff_of_true rfl ⟨fun _ _ hmem => absurd hmem List.not_mem_nil, fun _ _ hmem => absurd hmem List.not_mem_nil⟩
  | cons f rest ih =>
    obtain ⟨k, v⟩ := f
    cases v with
    | obj sub =>
      rw [propertiesProblem, Option.or_eq_none_iff, ih]
      simp only [List.mem_cons]
      constructor
      · rintro ⟨hsub, hobj, hrest⟩
        refine ⟨?_, ?_⟩
        · rintro k' v' (heq | hmem)
          · cases heq
            exact ⟨sub, rfl⟩
          · exact hobj k' v' hmem
        · rintro k' v' (heq | hmem)
          · cases heq
            exact hsub
          · exact hrest k' v' hmem
      · rintro ⟨hobj, hsub⟩
        exact ⟨hsub k sub (.inl rfl), fun k' v' hmem => hobj k' v' (.inr hmem), fun k' v' hmem => hsub k' v' (.inr hmem)⟩
    | _ =>
      rw [propertiesProblem]
      · refine iff_of_false (Option.some_ne_none _) fun hok => ?_
        obtain ⟨fields, hf⟩ := hok.1 k _ List.mem_cons_self
        cases hf
      · intro sub heq
        cases heq

theorem checkable_iff : Checkable schema ↔ KeywordsOk schema ∧
    (∀ properties k sub, get schema "properties" = some (.obj properties) → (k, .obj sub) ∈ properties → Checkable sub) ∧
      ∀ items, get schema "items" = some (.obj items) → Checkable items := by
  constructor
  · intro h
    exact ⟨h schema (.self _), fun _ _ _ hp hmem deep hd => h deep (.property hp hmem hd),
      fun _ hi deep hd => h deep (.items hi hd)⟩
  · rintro ⟨hok, hprops, hitems⟩ deep hd
    cases hd with
    | self => exact hok
    | property hp hmem hd => exact hprops _ _ _ hp hmem deep hd
    | items hi hd => exact hitems _ hi deep hd

theorem schemaProblem_none : schemaProblem schema at_ = none ↔
    typeProblem schema at_ = none ∧ enumProblem schema at_ = none ∧ requiredProblem schema at_ = none ∧
      (∀ p, get schema "properties" = some p → ∃ properties, p = .obj properties ∧ propertiesProblem properties at_ = none) ∧
      ∀ i, get schema "items" = some i → ∃ items, i = .obj items ∧ schemaProblem items (at_ ++ js ".items") = none := by
  rw [schemaProblem, Option.or_eq_none_iff, Option.or_eq_none_iff, Option.or_eq_none_iff, Option.or_eq_none_iff]
  refine and_congr_right fun _ => and_congr_right fun _ => and_congr_right fun _ => and_congr ?_ ?_
  · split
    · rename_i h
      refine iff_of_true rfl fun p hp => ?_
      rw [h] at hp
      cases hp
    · rename_i properties h
      refine ⟨fun hok p hp => ?_, fun hok => ?_⟩
      · rw [h] at hp
        cases hp
        exact ⟨properties, rfl, hok⟩
      · obtain ⟨_, heq, hnone⟩ := hok _ h
        cases heq
        exact hnone
    · rename_i p hno h
      refine iff_of_false (Option.some_ne_none _) fun hok => ?_
      obtain ⟨properties, rfl, -⟩ := hok p h
      exact hno properties rfl
  · split
    · rename_i h
      refine iff_of_true rfl fun i hi => ?_
      rw [h] at hi
      cases hi
    · rename_i items h
      refine ⟨fun hok i hi => ?_, fun hok => ?_⟩
      · rw [h] at hi
        cases hi
        exact ⟨items, rfl, hok⟩
      · obtain ⟨_, heq, hnone⟩ := hok _ h
        cases heq
        exact hnone
    · rename_i i hno h
      refine iff_of_false (Option.some_ne_none _) fun hok => ?_
      obtain ⟨items, rfl, -⟩ := hok i h
      exact hno items rfl

theorem sizeOf_property {properties sub : Fields} {k : Str} (h : get schema "properties" = some (.obj properties))
    (hmem : (k, .obj sub) ∈ properties) : sizeOf sub < sizeOf schema := by
  have hobj := sizeOf_object h
  have hlt := List.sizeOf_lt_of_mem hmem
  rw [Prod.mk.sizeOf_spec, Json.obj.sizeOf_spec] at hlt
  omega

/-- A schema is accepted exactly if every checked keyword in it has a form that is checked. -/
theorem problem_none_iff (schema : Fields) (at_ : Str) : schemaProblem schema at_ = none ↔ Checkable schema := by
  induction hsize : sizeOf schema using Nat.strong_induction_on generalizing schema at_ with
  | _ n ih =>
    subst hsize
    rw [schemaProblem_none, typeProblem_none, enumProblem_none, requiredProblem_none, checkable_iff]
    constructor
    · rintro ⟨ht, he, hr, hp, hi⟩
      refine ⟨⟨ht, he, hr, fun p hpget => ?_, fun i higet => ?_⟩, fun properties k sub hpget hmem => ?_, fun items higet => ?_⟩
      · obtain ⟨properties, rfl, hnone⟩ := hp p hpget
        exact ⟨properties, rfl, (propertiesProblem_none.1 hnone).1⟩
      · obtain ⟨items, rfl, -⟩ := hi i higet
        exact ⟨items, rfl⟩
      · obtain ⟨_, heq, hnone⟩ := hp _ hpget
        cases heq
        exact (ih _ (sizeOf_property hpget hmem) _ _ rfl).1 ((propertiesProblem_none.1 hnone).2 k sub hmem)
      · obtain ⟨_, heq, hnone⟩ := hi _ higet
        cases heq
        exact (ih _ (sizeOf_object higet) _ _ rfl).1 hnone
    · rintro ⟨⟨ht, he, hr, hp, hi⟩, hprops, hitems⟩
      refine ⟨ht, he, hr, fun p hpget => ?_, fun i higet => ?_⟩
      · obtain ⟨properties, rfl, hall⟩ := hp p hpget
        refine ⟨properties, rfl, propertiesProblem_none.2 ⟨hall, fun k sub hmem => ?_⟩⟩
        exact (ih _ (sizeOf_property hpget hmem) _ _ rfl).2 (hprops properties k sub hpget hmem)
      · obtain ⟨items, rfl⟩ := hi i higet
        exact ⟨items, rfl, (ih _ (sizeOf_object higet) _ _ rfl).2 (hitems items higet)⟩

theorem accepted_schema {raw : Option Json} (h : answerSpecOf raw = .ok (.schema schema)) :
    Checkable schema ∧ ∃ fields, raw = some (.obj fields) ∧ get fields "schema" = some (.obj schema) := by
  unfold answerSpecOf at h
  dsimp only at h
  split at h
  · rename_i fields
    split at h
    · cases h
    split at h
    · split at h
      · split at h <;> cases h
      · cases h
    split at h
    · split at h
      · cases h
      · split at h <;> cases h
    split at h
    · rename_i schema' hget
      split at h
      · cases h
      · rename_i hnone
        cases h
        exact ⟨(problem_none_iff _ _).1 hnone, fields, rfl, hget⟩
    · cases h
    · cases h
  · cases h

end Accepted

end Antiproton.AnswerCheck
