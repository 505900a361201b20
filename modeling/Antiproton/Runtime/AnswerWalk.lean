import Antiproton.Runtime.AnswerForms

/-!
# Antiproton.Runtime.AnswerWalk

The walk of a check over a schema and an answer together: it goes where JSON Schema applies a subschema, and also into what
an object of the answer inherits.

* `verdict_eq`: the outcome of a check is that of the first place refused.
* `applied_places`, `places_applied`: the places of the answer itself are where JSON Schema applies a subschema.
-/

namespace Antiproton.AnswerCheck

open Js

/-- Where JSON Schema applies a subschema: to an own property, and to each item. -/
inductive Applied : Fields → Json → Fields → Json → Prop
  | self (schema : Fields) (v : Json) : Applied schema v schema v
  | property {schema properties sub fields deep : Fields} {k : Str} {x y : Json} :
      get schema "properties" = some (.obj properties) → (k, .obj sub) ∈ properties →
      (Json.obj fields).field? k = some x → Applied sub x deep y → Applied schema (.obj fields) deep y
  | item {schema items deep : Fields} {vs : List Json} {x y : Json} : get schema "items" = some (.obj items) → x ∈ vs →
      Applied items x deep y → Applied schema (.arr vs) deep y

/-! ## The walk -/

/-- Where the walk comes: a subschema and what it is held against, which the answer has itself or an object inherits. -/
structure Place where
  schema : Fields
  value : Value
  own : Bool

def requiredFits (schema : Fields) (v : Value) : Bool := !v.isObject || (requiredOf schema).all fun k => (v.prop? k).isSome

/-- A check at one place does not pass. -/
def Place.refused (p : Place) : Bool :=
  !(typeFits p.schema p.value && enumFits p.schema p.value && requiredFits p.schema p.value)

mutual

/-- The places the walk comes to, in its order, while nothing is refused. -/
def places (schema : Fields) (v : Value) (own : Bool) : List Place :=
  ⟨schema, v, own⟩ ::
    ((match _h : get schema "properties" with
      | some (.obj properties) => if v.isObject then propertyPlaces properties v own else []
      | _ => []) ++
    match _h : get schema "items" with
      | some (.obj items) => itemPlaces items v.items own
      | _ => [])
termination_by (sizeOf schema, 0)
decreasing_by
  · exact Prod.Lex.left _ _ (sizeOf_object _h)
  · exact Prod.Lex.left _ _ (sizeOf_object _h)

def propertyPlaces (properties : Fields) (v : Value) (own : Bool) : List Place :=
  match properties with
  | [] => []
  | (k, .obj sub) :: rest =>
    (match v.prop? k with
      | some x => places sub x (own && v.hasOwn k)
      | none => []) ++ propertyPlaces rest v own
  | _ :: rest => propertyPlaces rest v own
termination_by (sizeOf properties, 0)

def itemPlaces (items : Fields) (vs : List Json) (own : Bool) : List Place :=
  match vs with
  | [] => []
  | v :: rest => places items (.json v) own ++ itemPlaces items rest own
termination_by (sizeOf items, vs.length)

end

def Value.isFunction : Value → Bool
  | function => true
  | _ => false

/-- The first place refused, by whether it is a function: what it comes to is thrown there, and a text otherwise. -/
def firstRefused (ps : List Place) : Option Bool := (ps.find? (·.refused)).map (·.value.isFunction)

/-- Whether a check refuses, and by throwing. -/
def Outcome.verdict : Outcome → Option Bool
  | fits => none
  | problem _ => some false
  | throws => some true

section Walk

variable {schema properties items : Fields} {v : Value} {own : Bool} {at_ text : Str}

theorem next_verdict (a b : Outcome) : (a.next b).verdict = a.verdict.or b.verdict := by
  cases a with
  | _ => rfl

theorem firstRefused_append (ps qs : List Place) : firstRefused (ps ++ qs) = (firstRefused ps).or (firstRefused qs) := by
  rw [firstRefused, List.find?_append]
  unfold firstRefused
  cases ps.find? (·.refused) with
  | _ => rfl

theorem refusal_verdict (text : Str) (v : Value) : (refusal text (some v)).verdict = some v.isFunction := by
  cases v with
  | _ => rfl

theorem typeMismatch_verdict : (typeMismatch schema v at_).verdict = if typeFits schema v then none else some v.isFunction := by
  unfold typeMismatch
  split
  · rfl
  · exact refusal_verdict _ v

theorem enumMismatch_verdict : (enumMismatch schema v at_).verdict = if enumFits schema v then none else some v.isFunction := by
  unfold enumMismatch
  split
  · rfl
  · exact refusal_verdict _ v

theorem requiredMismatch_verdict :
    (requiredMismatch schema v at_).verdict = if requiredFits schema v then none else some v.isFunction := by
  unfold requiredMismatch requiredFits
  cases hobj : v.isObject with
  | false => rfl
  | true =>
    have hfun : v.isFunction = false := by
      cases v with
      | function => cases hobj
      | _ => rfl
    rw [if_pos rfl, Bool.not_true, Bool.false_or, hfun]
    cases hfind : (requiredOf schema).find? fun k => (v.prop? k).isNone with
    | none =>
      rw [if_pos]
      · rfl
      · rw [List.all_eq_true]
        intro k hk
        have hnone := List.find?_eq_none.1 hfind k hk
        exact Option.isSome_iff_ne_none.2 fun h => hnone (Option.isNone_iff_eq_none.2 h)
    | some k =>
      rw [if_neg]
      · rfl
      · intro hall
        have hsome := List.all_eq_true.1 hall k (List.mem_of_find?_eq_some hfind)
        have hnone := List.find?_some (p := fun k => (v.prop? k).isNone) hfind
        rw [Option.isNone_iff_eq_none] at hnone
        rw [hnone] at hsome
        cases hsome

/-- The checks at one place refuse exactly if it is refused, and throw if what stands there is a function. -/
theorem place_verdict (at_ : Str) : ((typeMismatch schema v at_).verdict.or
    ((enumMismatch schema v at_).verdict.or (requiredMismatch schema v at_).verdict)) = firstRefused [⟨schema, v, own⟩] := by
  rw [typeMismatch_verdict, enumMismatch_verdict, requiredMismatch_verdict]
  unfold firstRefused
  rw [List.find?_singleton]
  unfold Place.refused
  dsimp only
  cases typeFits schema v with
  | false => rfl
  | true =>
    cases enumFits schema v with
    | false => rfl
    | true =>
      cases requiredFits schema v with
      | _ => rfl

/-- A keyword that is an object. -/
def objectOf (schema : Fields) (name : String) : Option Fields :=
  match get schema name with
  | some (.obj fields) => some fields
  | _ => none

theorem objectOf_eq {name : String} {fields : Fields} :
    objectOf schema name = some fields ↔ get schema name = some (.obj fields) := by
  unfold objectOf
  split
  · rename_i fields' h
    rw [h]
    exact ⟨fun heq => congrArg (some ∘ Json.obj) (Option.some.inj heq), fun heq => congrArg some (Json.obj.inj (Option.some.inj heq))⟩
  · rename_i hno
    exact ⟨nofun, fun h => absurd h (hno fields)⟩

theorem objectOf_none {name : String} (h : ∀ fields, get schema name = some (.obj fields) → False) :
    objectOf schema name = none :=
  Option.eq_none_iff_forall_ne_some.2 fun fields heq => h fields (objectOf_eq.1 heq)

theorem schemaMismatch_eq : schemaMismatch schema v at_ =
    ((typeMismatch schema v at_).next <| (enumMismatch schema v at_).next <| (requiredMismatch schema v at_).next <|
      ((objectOf schema "properties").elim .fits fun properties =>
        if v.isObject then propertiesMismatch properties v at_ else .fits).next
      ((objectOf schema "items").elim .fits fun items => itemsMismatch items v.items 0 at_)) := by
  rw [schemaMismatch]
  congr 4
  · split
    · rename_i h
      rw [objectOf_eq.2 h]
      rfl
    · rename_i h
      rw [objectOf_none h]
      rfl
  · split
    · rename_i h
      rw [objectOf_eq.2 h]
      rfl
    · rename_i h
      rw [objectOf_none h]
      rfl

theorem places_eq : places schema v own = ⟨schema, v, own⟩ ::
    (((objectOf schema "properties").elim [] fun properties => if v.isObject then propertyPlaces properties v own else []) ++
      (objectOf schema "items").elim [] fun items => itemPlaces items v.items own) := by
  rw [places]
  congr 2
  · split
    · rename_i h
      rw [objectOf_eq.2 h]
      rfl
    · rename_i h
      rw [objectOf_none h]
      rfl
  · split
    · rename_i h
      rw [objectOf_eq.2 h]
      rfl
    · rename_i h
      rw [objectOf_none h]
      rfl

theorem properties_verdict (h : ∀ k sub, (k, .obj sub) ∈ properties → ∀ x own at_,
      (schemaMismatch sub x at_).verdict = firstRefused (places sub x own)) :
    (propertiesMismatch properties v at_).verdict = firstRefused (propertyPlaces properties v own) := by
  induction properties with
  | nil =>
    rw [propertiesMismatch, propertyPlaces]
    rfl
  | cons f rest ih =>
    have hrest := ih fun k sub hmem => h k sub (List.mem_cons_of_mem _ hmem)
    obtain ⟨k, w⟩ := f
    cases w with
    | obj sub =>
      rw [propertiesMismatch, propertyPlaces, next_verdict, firstRefused_append, hrest]
      cases v.prop? k with
      | none => rfl
      | some x => rw [h k sub List.mem_cons_self x (own && v.hasOwn k)]
    | _ =>
      rw [propertiesMismatch, propertyPlaces]
      · exact hrest
      · intro k' sub heq
        cases heq
      · intro k' sub heq
        cases heq

theorem items_verdict {vs : List Json} {i : Nat} (h : ∀ x at_,
      (schemaMismatch items x at_).verdict = firstRefused (places items x own)) :
    (itemsMismatch items vs i at_).verdict = firstRefused (itemPlaces items vs own) := by
  induction vs generalizing i with
  | nil =>
    rw [itemsMismatch, itemPlaces]
    rfl
  | cons w rest ih => rw [itemsMismatch, itemPlaces, next_verdict, firstRefused_append, h, ih]

/-- The outcome of a check is that of the first place refused. -/
theorem verdict_eq (schema : Fields) (v : Value) (own : Bool) (at_ : Str) :
    (schemaMismatch schema v at_).verdict = firstRefused (places schema v own) := by
  induction hsize : sizeOf schema using Nat.strong_induction_on generalizing schema v own at_ with
  | _ n ih =>
    subst hsize
    have hproperties : ((objectOf schema "properties").elim .fits fun properties =>
          if v.isObject then propertiesMismatch properties v at_ else .fits).verdict =
        firstRefused ((objectOf schema "properties").elim [] fun properties =>
          if v.isObject then propertyPlaces properties v own else []) := by
      cases hget : objectOf schema "properties" with
      | none => rfl
      | some properties =>
        dsimp only [Option.elim_some]
        split
        · refine properties_verdict fun k sub hmem x own at_ => ?_
          exact ih _ (sizeOf_property (objectOf_eq.1 hget) hmem) _ _ _ _ rfl
        · rfl
    have hitems : ((objectOf schema "items").elim .fits fun items => itemsMismatch items v.items 0 at_).verdict =
        firstRefused ((objectOf schema "items").elim [] fun items => itemPlaces items v.items own) := by
      cases hget : objectOf schema "items" with
      | none => rfl
      | some items =>
        exact items_verdict fun x at_ => ih _ (sizeOf_object (objectOf_eq.1 hget)) _ _ _ _ rfl
    rw [schemaMismatch_eq, places_eq, ← List.singleton_append, firstRefused_append, firstRefused_append, next_verdict,
      next_verdict, next_verdict, next_verdict, ← place_verdict at_, Option.or_assoc, Option.or_assoc, hproperties,
      hitems]

end Walk

/-! ## The places of the answer itself -/

section Places

variable {schema properties items deep : Fields} {v : Value} {own : Bool} {p : Place} {x y : Json}

theorem mem_propertyPlaces : p ∈ propertyPlaces properties v own ↔ ∃ k sub x, (k, .obj sub) ∈ properties ∧
    v.prop? k = some x ∧ p ∈ places sub x (own && v.hasOwn k) := by
  induction properties with
  | nil =>
    rw [propertyPlaces]
    exact iff_of_false nofun nofun
  | cons f rest ih =>
    obtain ⟨k, w⟩ := f
    cases w with
    | obj sub =>
      rw [propertyPlaces, List.mem_append, ih]
      constructor
      · rintro (h | ⟨k', sub', x, hmem, hx⟩)
        · cases hprop : v.prop? k with
          | none =>
            rw [hprop] at h
            cases h
          | some x =>
            rw [hprop] at h
            exact ⟨k, sub, x, List.mem_cons_self, hprop, h⟩
        · exact ⟨k', sub', x, List.mem_cons_of_mem _ hmem, hx⟩
      · rintro ⟨k', sub', x, hmem, hprop, hp⟩
        rcases List.mem_cons.1 hmem with heq | hmem
        · cases heq
          rw [hprop]
          exact .inl hp
        · exact .inr ⟨k', sub', x, hmem, hprop, hp⟩
    | _ =>
      rw [propertyPlaces]
      · rw [ih]
        refine exists₃_congr fun k' sub x => and_congr_left fun _ => ?_
        rw [List.mem_cons]
        exact (or_iff_right nofun).symm
      · nofun

theorem mem_itemPlaces {vs : List Json} : p ∈ itemPlaces items vs own ↔ ∃ x ∈ vs, p ∈ places items (.json x) own := by
  induction vs with
  | nil =>
    rw [itemPlaces]
    exact iff_of_false nofun nofun
  | cons w rest ih =>
    rw [itemPlaces, List.mem_append, ih, List.exists_mem_cons_iff]

theorem mem_places : p ∈ places schema v own ↔ p = ⟨schema, v, own⟩ ∨
    (∃ properties k sub x, get schema "properties" = some (.obj properties) ∧ v.isObject = true ∧ (k, .obj sub) ∈ properties ∧
      v.prop? k = some x ∧ p ∈ places sub x (own && v.hasOwn k)) ∨
    ∃ items x, get schema "items" = some (.obj items) ∧ x ∈ v.items ∧ p ∈ places items (.json x) own := by
  rw [places_eq, List.mem_cons, List.mem_append]
  refine or_congr_right (or_congr ?_ ?_)
  · cases h : objectOf schema "properties" with
    | none =>
      refine iff_of_false nofun ?_
      rintro ⟨properties, k, sub, x, hget, -⟩
      rw [objectOf_eq.2 hget] at h
      cases h
    | some properties =>
      dsimp only [Option.elim_some]
      constructor
      · intro hmem
        split at hmem
        · rename_i hobj
          obtain ⟨k, sub, x, hrest⟩ := mem_propertyPlaces.1 hmem
          exact ⟨properties, k, sub, x, objectOf_eq.1 h, hobj, hrest⟩
        · cases hmem
      · rintro ⟨properties', k, sub, x, hget, hobj, hrest⟩
        rw [objectOf_eq.2 hget] at h
        cases h
        rw [if_pos hobj]
        exact mem_propertyPlaces.2 ⟨k, sub, x, hrest⟩
  · cases h : objectOf schema "items" with
    | none =>
      refine iff_of_false nofun ?_
      rintro ⟨items, x, hget, -⟩
      rw [objectOf_eq.2 hget] at h
      cases h
    | some items =>
      dsimp only [Option.elim_some]
      rw [mem_itemPlaces]
      constructor
      · rintro ⟨x, hrest⟩
        exact ⟨items, x, objectOf_eq.1 h, hrest⟩
      · rintro ⟨items', x, hget, hrest⟩
        rw [objectOf_eq.2 hget] at h
        cases h
        exact ⟨x, hrest⟩

theorem applied_places (h : Applied schema x deep y) : ⟨deep, .json y, true⟩ ∈ places schema (.json x) true := by
  induction h with
  | self schema v => exact mem_places.2 (.inl rfl)
  | @property schema properties sub fields deep k x y hget hmem hfield _ ih =>
    have hprop : (Value.json (.obj fields)).prop? k = some (.json x) := by
      rw [Value.prop?, hfield]
    have hown : (Value.json (.obj fields)).hasOwn k = true := by
      rw [Value.hasOwn, hfield]
      rfl
    refine mem_places.2 (.inr (.inl ⟨properties, k, sub, _, hget, rfl, hmem, hprop, ?_⟩))
    rw [hown]
    exact ih
  | @item schema items deep vs x y hget hmem _ ih => exact mem_places.2 (.inr (.inr ⟨items, x, hget, hmem, ih⟩))

/-- A place of the answer itself is where JSON Schema applies a subschema. -/
theorem places_applied (h : p ∈ places schema v own) (hown : p.own = true) :
    own = true ∧ ∀ x, v = .json x → ∃ y, p.value = .json y ∧ Applied schema x p.schema y := by
  induction hsize : sizeOf schema using Nat.strong_induction_on generalizing schema v own with
  | _ n ih =>
    subst hsize
    rcases mem_places.1 h with rfl | ⟨properties, k, sub, z, hget, hobj, hmem, hprop, hp⟩ | ⟨items, z, hget, hmem, hp⟩
    · refine ⟨hown, ?_⟩
      rintro x rfl
      exact ⟨x, rfl, .self _ _⟩
    · obtain ⟨hboth, hdeep⟩ := ih _ (sizeOf_property hget hmem) hp rfl
      rw [Bool.and_eq_true] at hboth
      refine ⟨hboth.1, ?_⟩
      rintro x rfl
      cases x with
      | obj fields =>
        obtain ⟨w, hw⟩ := Option.isSome_iff_exists.1 hboth.2
        rw [Value.prop?, hw] at hprop
        cases hprop
        obtain ⟨y, hy, happ⟩ := hdeep w rfl
        exact ⟨y, hy, .property hget hmem hw happ⟩
      | _ => cases hobj
    · obtain ⟨htrue, hdeep⟩ := ih _ (sizeOf_object hget) hp rfl
      refine ⟨htrue, ?_⟩
      rintro x rfl
      cases x with
      | arr vs =>
        obtain ⟨y, hy, happ⟩ := hdeep z rfl
        exact ⟨y, hy, .item hget hmem happ⟩
      | _ => cases hmem

theorem writtenFields_mem {fields : Fields} {k : Str} (h : WrittenFields fields) (hmem : (k, x) ∈ fields) : Written x := by
  induction fields with
  | nil => cases hmem
  | cons f rest ih =>
    rcases List.mem_cons.1 hmem with heq | hmem
    · rw [← heq] at h
      exact h.1
    · exact ih h.2 hmem

theorem writtenItems_mem {vs : List Json} (h : WrittenItems vs) (hmem : x ∈ vs) : Written x := by
  induction vs with
  | nil => cases hmem
  | cons w rest ih =>
    rcases List.mem_cons.1 hmem with rfl | hmem
    · exact h.1
    · exact ih h.2 hmem

theorem written_field {fields : Fields} {k : Str} (h : WrittenFields fields) (hf : (Json.obj fields).field? k = some x) :
    Written x := by
  obtain ⟨⟨k', w⟩, hfind, rfl⟩ := Option.map_eq_some_iff.1 hf
  exact writtenFields_mem h (List.mem_of_find?_eq_some hfind)

theorem written_applied (h : Applied schema x deep y) (hs : WrittenFields schema) (hx : Written x) :
    WrittenFields deep ∧ Written y := by
  induction h with
  | self => exact ⟨hs, hx⟩
  | property hget hmem hfield _ ih =>
    have hproperties : Written (.obj _) := written_field hs hget
    have hsub : Written (.obj _) := writtenFields_mem hproperties.2 hmem
    exact ih hsub.2 (written_field hx.2 hfield)
  | item hget hmem _ ih =>
    have hitems : Written (.obj _) := written_field hs hget
    exact ih hitems.2 (writtenItems_mem hx hmem)

end Places

end Antiproton.AnswerCheck
