import Antiproton.Core.JsonText
import Antiproton.Lib.Cursor
import Mathlib.Data.Rat.Defs

/-!
# Antiproton.Agents.Pages

The pages of the agents API (`cursorPage`, `cf/src/agents-api/shapes.ts`), and a client that follows them: it asks for
the next page with `after` set to the last item's id, and stops when `has_more` is false. The list may grow between
two requests.

* `pages_eq_walk`: no request of such a client is refused, and its pages are those of `Cursor.walk`.
* `pages_visit_once`: what it has read after each page, and that it ends.
-/

namespace Antiproton
namespace Agents

open Js

/-- `Invalid`: a refusal that names the parameter. -/
structure Invalid where
  status : Nat
  message : Str
  param : String
  code : String
deriving DecidableEq

/-- `invalid`. -/
def invalid (param : String) (message : Str) : Invalid := ⟨400, message, param, "invalid_value"⟩

/-- The query of a page. A limit is given as what `Number` makes of it, none for what is no finite number; one that is
empty is not given. -/
structure CursorQuery where
  after : Option Str
  limit : Option (Option ℚ)
  order : Option Str
deriving DecidableEq

/-- A page of a list. -/
structure CursorPage (T : Type) where
  object : String
  data : List T
  firstId : Option Str
  lastId : Option Str
  hasMore : Bool
deriving DecidableEq

variable {T : Type} (id : T → Str)

/-- How many items a page has at most: 20, or an integer from 1 to 100. -/
def limitOf (q : CursorQuery) : Except Invalid Nat :=
  match q.limit.getD (some 20) with
  | some n =>
    if n.den = 1 ∧ 1 ≤ n ∧ n ≤ 100 then .ok n.num.toNat
    else .error (invalid "limit" (js "limit must be an integer from 1 to 100"))
  | none => .error (invalid "limit" (js "limit must be an integer from 1 to 100"))

/-- An order that is not given, empty, or one of the two. -/
def orderKnown (q : CursorQuery) : Bool :=
  q.order.all fun o => o == [] || o == js "asc" || o == js "desc"

/-- The items in the order asked for; the newest first where none is. -/
def orderedItems (q : CursorQuery) (items : List T) : List T :=
  if q.order = some (js "asc") then items else items.reverse

/-- The refusal of an `after` that names nothing in the list. -/
def noItem (after : Str) : Invalid :=
  invalid "after" (js "no item with id " ++ quote after ++ js " in this list")

/-- Where a page starts. An empty `after` is none. -/
def startOf (ordered : List T) (after : Option Str) : Except Invalid Nat :=
  match after with
  | none => .ok 0
  | some after =>
    if after = [] then .ok 0
    else match ordered.findIdx? fun x => decide (id x = after) with
      | some i => .ok (i + 1)
      | none => .error (noItem after)

/-- `cursorPage`. -/
def cursorPage (items : List T) (q : CursorQuery) : Except Invalid (CursorPage T) := do
  let limit ← limitOf q
  if !orderKnown q then throw (invalid "order" (js "order must be asc or desc"))
  let ordered := orderedItems q items
  let start ← startOf id ordered q.after
  let data := (ordered.drop start).take limit
  return ⟨"list", data, data.head?.map id, data.getLast?.map id, decide (start + limit < ordered.length)⟩

/-! ## A client that follows the pages -/

/-- The answers to a client's requests, each from the list as it is by then: the first with no `after`, then, while
there is more, with the last item's id. -/
def pageAt (lists : Nat → List T) (q : CursorQuery) : Nat → Option (Except Invalid (CursorPage T))
  | 0 => some (cursorPage id (lists 0) { q with after := none })
  | k + 1 =>
    match pageAt lists q k with
    | some (.ok p) => if p.hasMore then some (cursorPage id (lists (k + 1)) { q with after := p.lastId }) else none
    | _ => none

/-- The items of an answer. -/
def answered : Option (Except Invalid (CursorPage T)) → List T
  | some (.ok p) => p.data
  | _ => []

/-- The items of the answers so far. -/
def visited (lists : Nat → List T) (q : CursorQuery) (k : Nat) : List T :=
  (List.range (k + 1)).flatMap fun i => answered (pageAt id lists q i)

/-- A page as it is sent. -/
def sent (p : Cursor.Page T) : CursorPage T :=
  ⟨"list", p.data, p.data.head?.map id, p.data.getLast?.map id, p.more⟩

section Pages

variable {id} {q : CursorQuery} {n : Nat} {items : List T}

theorem limitOf_bounds (h : limitOf q = .ok n) : 1 ≤ n ∧ n ≤ 100 := by
  unfold limitOf at h
  split at h
  · rename_i x _
    split at h
    · rename_i hx
      cases h
      obtain ⟨hden, hlow, hhigh⟩ := hx
      have hint : ((x.num : Int) : ℚ) = x := (Rat.den_eq_one_iff x).1 hden
      rw [← hint] at hlow hhigh
      have h1 : (1 : Int) ≤ x.num := by exact_mod_cast hlow
      have h2 : x.num ≤ 100 := by exact_mod_cast hhigh
      omega
    · cases h
  · cases h

/-- An accepted request is a page of the ordered list. -/
theorem cursorPage_eq (hlimit : limitOf q = .ok n) (horder : orderKnown q = true) (items : List T) {after : Option Str}
    (hafter : after ≠ some []) :
    cursorPage id items { q with after := after } =
      match Cursor.page id n (orderedItems q items) after with
      | some p => .ok (sent id p)
      | none => .error (noItem (after.getD [])) := by
  have hlimit' : limitOf { q with after := after } = .ok n := hlimit
  have horder' : orderKnown { q with after := after } = true := horder
  have hordered : orderedItems { q with after := after } items = orderedItems q items := rfl
  unfold cursorPage
  rw [hlimit', horder', hordered]
  cases after with
  | none => rfl
  | some after =>
    have hne : after ≠ [] := fun h => hafter (congrArg some h)
    simp only [startOf, Cursor.page, Cursor.startOf, if_neg hne]
    cases (orderedItems q items).findIdx? fun x => decide (id x = after) with
    | none => rfl
    | some i => rfl

/-- An `after` that names no item is refused. -/
theorem cursorPage_refused (hlimit : limitOf q = .ok n) (horder : orderKnown q = true) {after : Str} (hne : after ≠ [])
    (hnone : ∀ x ∈ items, id x ≠ after) :
    cursorPage id items { q with after := some after } = .error (noItem after) := by
  have habsent : (orderedItems q items).findIdx? (fun x => decide (id x = after)) = none := by
    rw [List.findIdx?_eq_none_iff]
    intro x hx
    refine decide_eq_false (hnone x ?_)
    unfold orderedItems at hx
    split at hx
    · exact hx
    · exact List.mem_reverse.1 hx
  rw [cursorPage_eq hlimit horder items (by simpa using hne)]
  simp [Cursor.page, Cursor.startOf, habsent]

variable {lists : Nat → List T}

/-- What a list does between two requests, in the order asked for. -/
theorem ordered_grows (hg : ∀ k, lists k <+: lists (k + 1)) :
    (q.order = some (js "asc") → ∀ k, orderedItems q (lists k) <+: orderedItems q (lists (k + 1))) ∧
      (q.order ≠ some (js "asc") → ∀ k, orderedItems q (lists k) <:+ orderedItems q (lists (k + 1))) := by
  refine ⟨fun h k => ?_, fun h k => ?_⟩
  · rw [orderedItems, orderedItems, if_pos h, if_pos h]
    exact hg k
  · rw [orderedItems, orderedItems, if_neg h, if_neg h]
    exact List.reverse_suffix.2 (hg k)

theorem ordered_distinct (hn : ∀ k, ((lists k).map id).Nodup) (k : Nat) :
    ((orderedItems q (lists k)).map id).Nodup := by
  unfold orderedItems
  split
  · exact hn k
  · rw [List.map_reverse]
    exact List.nodup_reverse.2 (hn k)

/-- A list of distinct, non-empty ids that only grows. -/
structure Growing (id : T → Str) (lists : Nat → List T) : Prop where
  distinct : ∀ k, ((lists k).map id).Nodup
  named : ∀ k, ∀ x ∈ lists k, id x ≠ []
  grows : ∀ k, lists k <+: lists (k + 1)

theorem goes_on (hg : Growing id lists) (hpos : 0 < n) {k : Nat} {p : Cursor.Page T}
    (h : Cursor.walk id n (fun k => orderedItems q (lists k)) k = some p) (hmore : p.more = true) :
    (Cursor.walk id n (fun k => orderedItems q (lists k)) (k + 1)).isSome := by
  by_cases hasc : q.order = some (js "asc")
  · exact Cursor.forward_goes_on hpos (ordered_distinct hg.distinct) ((ordered_grows hg.grows).1 hasc) h hmore
  · exact Cursor.backward_goes_on hpos (ordered_distinct hg.distinct) ((ordered_grows hg.grows).2 hasc) h hmore

theorem last_named (hg : Growing id lists) {k : Nat} {p : Cursor.Page T}
    (h : Cursor.walk id n (fun k => orderedItems q (lists k)) k = some p) : p.data.getLast?.map id ≠ some [] := by
  have hmem : ∀ x ∈ p.data, x ∈ lists k := by
    intro x hx
    have hin : x ∈ orderedItems q (lists k) := by
      cases k with
      | zero =>
        rw [Cursor.walk, Cursor.page_first] at h
        cases h
        exact List.mem_of_mem_take hx
      | succ k =>
        obtain ⟨_, -, -, hp⟩ := Cursor.walk_succ h
        obtain ⟨s, -, rfl⟩ := Option.map_eq_some_iff.1 hp
        exact List.mem_of_mem_drop (List.mem_of_mem_take hx)
    unfold orderedItems at hin
    split at hin
    · exact hin
    · exact List.mem_reverse.1 hin
  intro hnil
  obtain ⟨x, hx, hid⟩ := Option.map_eq_some_iff.1 hnil
  exact hg.named k x (hmem x (List.mem_of_getLast? hx)) hid

/-- No request of the client is refused, and its pages are those of a walk. -/
theorem pages_eq_walk (hlimit : limitOf q = .ok n) (horder : orderKnown q = true) (hg : Growing id lists) (k : Nat) :
    pageAt id lists q k = (Cursor.walk id n (fun k => orderedItems q (lists k)) k).map fun p => .ok (sent id p) := by
  have hpos : 0 < n := (limitOf_bounds hlimit).1
  induction k with
  | zero =>
    rw [pageAt, cursorPage_eq hlimit horder _ (by simp), Cursor.walk, Cursor.page_first]
    rfl
  | succ k ih =>
    rw [pageAt, ih]
    cases hw : Cursor.walk id n (fun k => orderedItems q (lists k)) k with
    | none => rw [Cursor.walk, hw]; rfl
    | some p =>
      rw [Cursor.walk, hw]
      simp only [Option.map_some, Option.bind_some, sent]
      split
      · rename_i hmore
        have hon := goes_on hg hpos hw hmore
        rw [Cursor.walk, hw, Option.bind_some, if_pos hmore] at hon
        obtain ⟨p', hp'⟩ := Option.isSome_iff_exists.1 hon
        rw [cursorPage_eq hlimit horder _ (last_named hg hw), hp']
        rfl
      · rfl

theorem visited_eq_walk (hlimit : limitOf q = .ok n) (horder : orderKnown q = true) (hg : Growing id lists) (k : Nat) :
    visited id lists q k = Cursor.visited id n (fun k => orderedItems q (lists k)) k := by
  have hone : ∀ k, answered (pageAt id lists q k) =
      ((Cursor.walk id n (fun k => orderedItems q (lists k)) k).map (·.data)).getD [] := by
    intro k
    rw [pages_eq_walk hlimit horder hg]
    cases Cursor.walk id n (fun k => orderedItems q (lists k)) k with
    | none => rfl
    | some p => rfl
  induction k with
  | zero =>
    rw [visited, Cursor.visited, List.range_one, List.flatMap_singleton, hone]
  | succ k ih =>
    rw [visited, List.range_succ, List.flatMap_append, List.flatMap_singleton, Cursor.visited, ← ih, hone]
    rfl

/-- The list a client is to see after `k` pages: as it is by then from its oldest item on, or as it was at first from
its newest. -/
def asked (lists : Nat → List T) (q : CursorQuery) (k : Nat) : List T :=
  if q.order = some (js "asc") then lists k else (lists 0).reverse

/-- After each page, what was visited and what is left are the list asked for. -/
theorem stands (hlimit : limitOf q = .ok n) (horder : orderKnown q = true) (hg : Growing id lists) {k : Nat}
    {p : CursorPage T} (h : pageAt id lists q k = some (.ok p)) :
    ∃ w left, Cursor.walk id n (fun k => orderedItems q (lists k)) k = some w ∧ p = sent id w ∧
      asked lists q k = visited id lists q k ++ left ∧ Cursor.Leaves n w left := by
  have hpos : 0 < n := (limitOf_bounds hlimit).1
  rw [pages_eq_walk hlimit horder hg] at h
  obtain ⟨w, hw, hp⟩ := Option.map_eq_some_iff.1 h
  rw [visited_eq_walk hlimit horder hg]
  by_cases hasc : q.order = some (js "asc")
  · obtain ⟨pre, left, hv, hl, hleaves⟩ :=
      Cursor.walk_forward hpos (ordered_distinct hg.distinct) ((ordered_grows hg.grows).1 hasc) hw
    refine ⟨w, left, hw, (Except.ok.inj hp).symm, ?_, hleaves⟩
    rw [asked, if_pos hasc, hv, ← hl, orderedItems, if_pos hasc]
  · obtain ⟨new, pre, left, hv, hl, -, hleaves⟩ :=
      Cursor.walk_backward hpos (ordered_distinct hg.distinct) ((ordered_grows hg.grows).2 hasc) hw
    refine ⟨w, left, hw, (Except.ok.inj hp).symm, ?_, hleaves⟩
    rw [asked, if_neg hasc, hv, ← hl, orderedItems, if_neg hasc]

theorem before_page (h : (pageAt id lists q (k + 1)).isSome) :
    ∃ p, pageAt id lists q k = some (.ok p) ∧ p.hasMore = true := by
  unfold pageAt at h
  split at h
  · rename_i p hp
    refine ⟨p, hp, ?_⟩
    by_contra hlast
    rw [if_neg hlast] at h
    cases h
  · cases h

/-- Every page before one that was asked for says that more follow. -/
theorem earlier_more {j k : Nat} {p : CursorPage T} (hlt : j < k) (hk : (pageAt id lists q k).isSome)
    (hj : pageAt id lists q j = some (.ok p)) : p.hasMore = true := by
  induction k with
  | zero => omega
  | succ k ih =>
    obtain ⟨p', hp', hmore⟩ := before_page hk
    rcases Nat.lt_succ_iff_lt_or_eq.1 hlt with hlt | rfl
    · exact ih hlt (by rw [hp']; rfl)
    · rw [hj] at hp'
      cases hp'
      exact hmore

theorem visited_succ_eq (k : Nat) :
    visited id lists q (k + 1) = visited id lists q k ++ answered (pageAt id lists q (k + 1)) := by
  rw [visited, List.range_succ, List.flatMap_append, List.flatMap_singleton]
  rfl

/-- Each page of a list that is not empty has an item. -/
theorem progress (hlimit : limitOf q = .ok n) (horder : orderKnown q = true) (hg : Growing id lists) {k : Nat}
    {p : CursorPage T} (h : pageAt id lists q k = some (.ok p)) (hnone : p.data = []) : lists k = [] := by
  obtain ⟨w, left, -, rfl, hasked, hleaves⟩ := stands hlimit horder hg h
  have hleft := hleaves.none_left hnone
  cases k with
  | zero =>
    have hfirst : visited id lists q 0 = [] := by
      rw [visited, List.range_one, List.flatMap_singleton, h]
      exact hnone
    rw [hfirst, hleft, asked] at hasked
    split at hasked
    · exact hasked
    · exact List.reverse_eq_nil_iff.1 hasked
  | succ k =>
    have hread : (pageAt id lists q (k + 1)).isSome := by rw [h]; rfl
    obtain ⟨p', hp', hmore⟩ := before_page hread
    obtain ⟨w', left', -, rfl, hasked', hleaves'⟩ := stands hlimit horder hg hp'
    have hsome : left' ≠ [] := by
      have hm : w'.more = true := hmore
      rw [hleaves'.more] at hm
      simpa using hm
    rw [visited_succ_eq, h, hleft, List.append_nil] at hasked
    change asked lists q (k + 1) = visited id lists q k ++ w.data at hasked
    change w.data = [] at hnone
    rw [hnone, List.append_nil] at hasked
    -- the page before left some, and the list asked for has not shrunk
    have hlen : (asked lists q k).length ≤ (asked lists q (k + 1)).length := by
      unfold asked
      split
      · exact (hg.grows k).length_le
      · exact le_refl _
    rw [hasked, hasked', List.length_append] at hlen
    have hpos := List.length_pos_of_ne_nil hsome
    omega

theorem asked_length_le (hg : Growing id lists) {bound : Nat} (hb : ∀ k, (lists k).length ≤ bound) (k : Nat) :
    (asked lists q k).length ≤ bound := by
  unfold asked
  split
  · exact hb k
  · rw [List.length_reverse]
    exact hb 0

/-- A walk over a list of bounded length comes to a last page; so does every walk from the newest item on. -/
theorem ends (hlimit : limitOf q = .ok n) (horder : orderKnown q = true) (hg : Growing id lists)
    (hb : q.order ≠ some (js "asc") ∨ ∃ bound, ∀ k, (lists k).length ≤ bound) :
    ∃ k p, pageAt id lists q k = some (.ok p) ∧ p.hasMore = false := by
  have hpos : 0 < n := (limitOf_bounds hlimit).1
  have hpage : ∀ {k w}, Cursor.walk id n (fun k => orderedItems q (lists k)) k = some w →
      pageAt id lists q k = some (.ok (sent id w)) := by
    intro k w hw
    rw [pages_eq_walk hlimit horder hg, hw]
    rfl
  obtain ⟨bound, hbound⟩ : ∃ bound, ∀ k, (asked lists q k).length ≤ bound := by
    rcases hb with hdesc | ⟨bound, hb⟩
    · refine ⟨(lists 0).length, fun k => ?_⟩
      rw [asked, if_neg hdesc, List.length_reverse]
    · exact ⟨bound, asked_length_le hg hb⟩
  have hfull : ∀ k w, Cursor.walk id n (fun k => orderedItems q (lists k)) k = some w → w.more = true →
      w.data.length = n := by
    intro k w hw hmore
    obtain ⟨w', left, hw', -, -, hleaves⟩ := stands hlimit horder hg (hpage hw)
    rw [hw] at hw'
    cases hw'
    exact hleaves.full hmore
  have hle : ∀ k w, Cursor.walk id n (fun k => orderedItems q (lists k)) k = some w →
      (Cursor.visited id n (fun k => orderedItems q (lists k)) k).length ≤ bound := by
    intro k w hw
    obtain ⟨w', left, -, -, hasked, -⟩ := stands hlimit horder hg (hpage hw)
    have hle := hbound k
    rw [hasked, List.length_append, visited_eq_walk hlimit horder hg] at hle
    omega
  obtain ⟨k, w, hw, hlast⟩ := Cursor.walk_ends hpos hfull (fun k w hw hmore => goes_on hg hpos hw hmore) hle
  exact ⟨k, sent id w, hpage hw, hlast⟩

/-- A walk from the oldest item on that never ends comes to every item. -/
theorem reaches_all (hlimit : limitOf q = .ok n) (horder : orderKnown q = true) (hg : Growing id lists)
    (hasc : q.order = some (js "asc")) (hon : ∀ k, (pageAt id lists q k).isSome) (i : Nat) {x : T} (hx : x ∈ lists i) :
    ∃ k, x ∈ visited id lists q k := by
  have hpos : 0 < n := (limitOf_bounds hlimit).1
  have hsize : ∀ k, k ≤ (visited id lists q k).length := by
    intro k
    induction k with
    | zero => exact Nat.zero_le _
    | succ k ih =>
      obtain ⟨p, hp, hmore⟩ := before_page (hon (k + 1))
      obtain ⟨p', hp', hmore'⟩ := before_page (hon (k + 2))
      obtain ⟨w, left, -, rfl, -, hleaves⟩ := stands hlimit horder hg hp'
      have hdata : w.data.length = n := hleaves.full hmore'
      rw [visited_succ_eq, hp', List.length_append]
      change k + 1 ≤ (visited id lists q k).length + w.data.length
      omega
  have hgrows : ∀ m, lists i <+: lists (i + m) := by
    intro m
    induction m with
    | zero => exact List.prefix_refl _
    | succ m ih => exact ih.trans (hg.grows (i + m))
  obtain ⟨p, hp, -⟩ := before_page (hon (i + (lists i).length + 1))
  obtain ⟨w, left, -, -, hasked, -⟩ := stands hlimit horder hg hp
  rw [asked, if_pos hasc] at hasked
  have hsmall : (lists i).length ≤ (visited id lists q (i + (lists i).length)).length := by
    have hle := hsize (i + (lists i).length)
    omega
  have hin := List.prefix_of_prefix_length_le (hgrows (lists i).length) ⟨left, hasked.symm⟩ hsmall
  exact ⟨i + (lists i).length, hin.subset hx⟩

end Pages

/-- A client that follows the pages of a list of distinct, non-empty ids, which may grow between its requests: none is
refused, each page has an item unless the list has none, nothing is visited twice, what was visited and what is left
are the list asked for, and `has_more` says whether something is left; only the last page says that nothing is, and
there is one where the list is bounded or read from its newest item on. An `after` that names no item is refused. -/
theorem pages_visit_once {T : Type} (id : T → Str) (lists : Nat → List T) (q : CursorQuery) (n : Nat)
    (hlimit : limitOf q = .ok n) (horder : orderKnown q = true) (hg : Growing id lists) :
    (∀ k e, pageAt id lists q k ≠ some (.error e)) ∧
    (∀ k p, pageAt id lists q k = some (.ok p) →
      (visited id lists q k).Nodup ∧ (p.data = [] → lists k = []) ∧
        ∃ left, asked lists q k = visited id lists q k ++ left ∧ (p.hasMore = true ↔ left ≠ [])) ∧
    (∀ j k p, j < k → (pageAt id lists q k).isSome → pageAt id lists q j = some (.ok p) → p.hasMore = true) ∧
    (q.order ≠ some (js "asc") ∨ (∃ bound, ∀ k, (lists k).length ≤ bound) →
      ∃ k p, pageAt id lists q k = some (.ok p) ∧ p.hasMore = false) ∧
    (q.order = some (js "asc") → (∀ k, (pageAt id lists q k).isSome) →
      ∀ i, ∀ x ∈ lists i, ∃ k, x ∈ visited id lists q k) ∧
    ∀ items after, after ≠ [] → (∀ x ∈ items, id x ≠ after) →
      cursorPage id items { q with after := some after } = .error (noItem after) := by
  refine ⟨fun k e h => ?_, fun k p h => ⟨?_, progress hlimit horder hg h, ?_⟩, fun j k p hlt hk hj => earlier_more hlt hk hj,
    ends hlimit horder hg, fun hasc hon i x hx => reaches_all hlimit horder hg hasc hon i hx,
    fun items after hne hnone => cursorPage_refused hlimit horder hne hnone⟩
  · rw [pages_eq_walk hlimit horder hg] at h
    obtain ⟨w, -, hw⟩ := Option.map_eq_some_iff.1 h
    cases hw
  · obtain ⟨w, left, -, -, hasked, -⟩ := stands hlimit horder hg h
    have hnodup : (asked lists q k).Nodup := by
      unfold asked
      split
      · exact (hg.distinct k).of_map
      · exact List.nodup_reverse.2 (hg.distinct 0).of_map
    rw [hasked] at hnodup
    exact hnodup.of_append_left
  · obtain ⟨w, left, -, rfl, hasked, hleaves⟩ := stands hlimit horder hg h
    refine ⟨left, hasked, ?_⟩
    change w.more = true ↔ left ≠ []
    rw [hleaves.more]
    simp

/-- A list of one item that gets a second. -/
def twoSessions (k : Nat) : List Str := if k = 0 then [js "session_1"] else [js "session_1", js "session_2"]

theorem twoSessions_growing : Growing (fun x => x) twoSessions where
  distinct k := by
    unfold twoSessions
    split
    · decide
    · decide
  named k := by
    unfold twoSessions
    split
    · decide
    · decide
  grows k := by
    unfold twoSessions
    rw [if_neg (Nat.succ_ne_zero k)]
    split
    · exact ⟨[js "session_2"], rfl⟩
    · exact List.prefix_refl _

theorem pages_visit_once_two :
    ∃ k p, pageAt (fun x => x) twoSessions ⟨none, some (some 1), none⟩ k = some (.ok p) ∧ p.hasMore = false :=
  (pages_visit_once (fun x => x) twoSessions ⟨none, some (some 1), none⟩ 1 (by decide) (by decide)
    twoSessions_growing).2.2.2.1 (.inl (by decide))

/-- An empty `after` names no item and starts the list again, and an item of an empty id is visited again and again. -/
theorem empty_after_restarts :
    cursorPage (fun x => x) [js "a"] ⟨some [], none, none⟩ =
        .ok ⟨"list", [js "a"], some (js "a"), some (js "a"), false⟩ ∧
      visited (fun x => x) (fun _ => [[], js "a"]) ⟨none, some (some 1), some (js "asc")⟩ 2 = [[], [], []] := by
  decide

end Agents
end Antiproton
