import Antiproton.Conversations.Names

/-!
# Antiproton.Conversations.Record

The rows of `main_sessions` and the pages they are of: each page is a row, in order, and only the last has not ended.

* `currentMainId_eq`, `mainSessions_eq`, `physicalSession_current`, `physicalSession_past`, `physicalSession_erased`: what the
  readers make of the rows.
* `recordMain_turn`: what a fresh start writes. `recordMain_full`: it fails where a generation has no successor of its own.
* `logicalMain_rebuild`, `logicalMain_fresh`: how the logical conversation goes on.
-/

namespace Antiproton.Conversations

open Js

variable {B : Type} {db db' : Db B} {b : Book B} {p : Page B}

/-- The row of a page. -/
def Page.row (p : Page B) : MainRow :=
  ⟨p.generation, p.id, if p.endedAt.isSome && !p.erased then some (archivedName p.id) else none, p.startedAt, p.endedAt, p.cause⟩

/-- The pages have the generations from zero on and the ids of these, and only the current one has not ended. -/
structure Numbered (b : Book B) : Prop where
  generations : b.past.map (·.generation) = List.range b.past.length
  now : b.current.generation = b.past.length
  ids : ∀ p ∈ b.pages, p.id = mainId p.generation
  bounded : b.past.length ≤ MAX_EXACT
  ended : ∀ p ∈ b.past, p.endedAt.isSome
  open_ : b.current.endedAt = none
  kept : b.current.erased = false

/-- The rows are the pages', or there are none yet and the first conversation is the current one. -/
def Recorded (mains : Option (List MainRow)) (b : Book B) : Prop :=
  (mains.getD [] = [] ∧ b.past = [] ∧ b.current.row = ⟨0, FIRST_MAIN_ID, none, none, none, none⟩) ∨
    mains = some (b.pages.map Page.row)

theorem mem_pages : p ∈ b.pages ↔ p ∈ b.past ∨ p = b.current := by
  rw [Book.pages, List.mem_append, List.mem_singleton]

theorem current_mem (b : Book B) : b.current ∈ b.pages := mem_pages.2 (.inr rfl)

/-- There are rows as soon as a conversation has ended. -/
theorem Recorded.of_past {mains : Option (List MainRow)} (hr : Recorded mains b) (hp : p ∈ b.past) :
    mains = some (b.pages.map Page.row) := by
  rcases hr with ⟨-, hpast, -⟩ | hsome
  · rw [hpast] at hp
    exact absurd hp List.not_mem_nil
  · exact hsome

section Numbered

variable (hn : Numbered b)
include hn

theorem Numbered.lt (hp : p ∈ b.past) : p.generation < b.past.length := by
  have hmem : p.generation ∈ b.past.map (·.generation) := List.mem_map_of_mem hp
  rw [hn.generations, List.mem_range] at hmem
  exact hmem

theorem Numbered.pages_generations : b.pages.map (·.generation) = List.range (b.past.length + 1) := by
  rw [Book.pages, List.map_append, hn.generations, List.range_succ, List.map_singleton, hn.now]

theorem Numbered.le (hp : p ∈ b.pages) : p.generation ≤ b.past.length := by
  rcases mem_pages.1 hp with h | rfl
  · exact Nat.le_of_lt (hn.lt h)
  · exact Nat.le_of_eq hn.now

theorem Numbered.inj {q : Page B} (hp : p ∈ b.pages) (hq : q ∈ b.pages) (h : p.id = q.id) : p = q := by
  rw [hn.ids p hp, hn.ids q hq] at h
  have hnodup : (b.pages.map (·.generation)).Nodup := hn.pages_generations ▸ List.nodup_range
  exact List.inj_on_of_nodup_map hnodup hp hq (mainId_injective h)

theorem Numbered.id_ne (hp : p ∈ b.past) : p.id ≠ b.current.id := by
  intro h
  have heq := hn.inj (mem_pages.2 (.inl hp)) (current_mem b) h
  have hlt := hn.lt hp
  rw [heq, hn.now] at hlt
  omega

theorem Numbered.archived (hp : p ∈ b.pages) : archivedName p.id = archive p.generation := by
  rw [hn.ids p hp, archive]

theorem Numbered.known (hp : p ∈ b.pages) : Known (archive p.generation) :=
  .inr ⟨p.generation, (hn.le hp).trans hn.bounded, rfl⟩

/-- The current conversation is to be archived apart from the earlier ones. -/
theorem Numbered.archive_ne (hp : p ∈ b.past) : archive p.generation ≠ archive b.past.length :=
  fun heq => Nat.ne_of_lt (hn.lt hp) (archive_injective heq)

theorem Numbered.ids_nodup : (b.pages.map (·.id)).Nodup := by
  have hids : b.pages.map (·.id) = (b.pages.map (·.generation)).map mainId := by
    rw [List.map_map]
    exact List.map_congr_left hn.ids
  rw [hids, hn.pages_generations]
  exact List.nodup_range.map mainId_injective

theorem Numbered.rows_sorted : Table.orderBy (·.generation) (b.pages.map Page.row) = b.pages.map Page.row := by
  refine List.Pairwise.insertionSort_eq ?_
  have hsorted : ((b.pages.map Page.row).map (·.generation)).Pairwise (· ≤ ·) := by
    rw [List.map_map, show (fun r : MainRow => r.generation) ∘ Page.row = fun p : Page B => p.generation from rfl,
      hn.pages_generations]
    exact List.pairwise_le_range
  exact List.pairwise_map.1 hsorted

/-- Only the current page's row has not ended. -/
theorem Numbered.select_open : Table.select (·.endedAt.isNone) (b.pages.map Page.row) = [b.current.row] := by
  have hpast : Table.select (·.endedAt.isNone) (b.past.map Page.row) = [] := by
    refine List.filter_eq_nil_iff.2 fun r hr => ?_
    obtain ⟨p, hp, rfl⟩ := List.mem_map.1 hr
    have hended := hn.ended p hp
    simp only [Page.row, Option.isNone_iff_eq_none]
    intro h
    rw [h] at hended
    cases hended
  rw [Book.pages, List.map_append, Table.select, List.filter_append, ← Table.select, hpast, List.map_singleton,
    List.filter_cons_of_pos (by simp [Page.row, hn.open_]), List.filter_nil, List.nil_append]

variable (hr : Recorded db.mains b)
include hr

theorem currentMainId_eq : currentMainId db = b.current.id := by
  rcases hr with ⟨hnone, hpast, hrow⟩ | hsome
  · rw [currentMainId, hnone]
    exact (congrArg MainRow.sessionId hrow).symm
  · rw [currentMainId, hsome, Option.getD_some, hn.select_open]
    rfl

theorem mainSessions_eq : mainSessions db = b.pages.map fun p => p.row.session := by
  rcases hr with ⟨hnone, hpast, hrow⟩ | hsome
  · rw [mainSessions, hnone, Book.pages, hpast]
    show [MainSession.mk FIRST_MAIN_ID 0 true none none none] = [b.current.row.session]
    rw [hrow]
    rfl
  · rw [mainSessions, hsome, Option.getD_some, hn.rows_sorted, List.map_map]
    have hne : b.pages.map (MainRow.session ∘ Page.row) ≠ [] := by simp [Book.pages]
    simp only [hne, if_false]
    rfl

theorem physicalSession_current : physicalSession db b.current.id = some MAIN_SESSION := by
  rw [physicalSession, currentMainId_eq hn hr, if_pos rfl]

theorem physicalSession_past (hp : p ∈ b.past) (hk : p.erased = false) :
    physicalSession db p.id = some (archive p.generation) := by
  have hmem : p ∈ b.pages := mem_pages.2 (.inl hp)
  have hrow : p.row.archivedAs = some (archive p.generation) := by
    rw [← hn.archived hmem]
    simp [Page.row, hn.ended p hp, hk]
  have hone : Table.one (fun r : MainRow => r.sessionId == p.id && r.archivedAs.isSome) (b.pages.map Page.row) = some p.row := by
    have hunique : Table.Unique MainRow.sessionId (b.pages.map Page.row) := by
      rw [Table.Unique, List.map_map]
      exact hn.ids_nodup
    refine Table.one_of_mem hunique (List.mem_map_of_mem hmem) ?_ fun r h => ?_
    · rw [hrow]
      simp [Page.row]
    · exact beq_iff_eq.1 (Bool.and_eq_true_iff.1 h).1
  rw [physicalSession, currentMainId_eq hn hr, if_neg (hn.id_ne hp), hr.of_past hp, Option.getD_some, hone]
  exact hrow

theorem physicalSession_erased (hp : p ∈ b.past) (hk : p.erased = true) : physicalSession db p.id = none := by
  have hmem : p ∈ b.pages := mem_pages.2 (.inl hp)
  have hone : Table.one (fun r : MainRow => r.sessionId == p.id && r.archivedAs.isSome) (b.pages.map Page.row) = none := by
    refine Table.one_eq_none.2 fun r h => ?_
    obtain ⟨q, hq, rfl⟩ := List.mem_map.1 h
    by_cases hid : q.id = p.id
    · obtain rfl := hn.inj hq hmem hid
      simp [Page.row, hk]
    · simp [Page.row, hid]
  rw [physicalSession, currentMainId_eq hn hr, if_neg (hn.id_ne hp), hr.of_past hp, Option.getD_some, hone]
  rfl

end Numbered

/-! ## A fresh start -/

section Turn

variable {mains : Option (List MainRow)} (hn : Numbered b) (hr : Recorded mains b) (now : Int) (cause : MainCause)
include hn hr

theorem lastGeneration_eq : lastGeneration (mains.getD []) = b.past.length := by
  have hmax : ∀ n, (List.range (n + 1)).foldl max 0 = n := by
    intro n
    induction n with
    | zero => rfl
    | succ n ih =>
      rw [List.range_succ, List.foldl_append, ih]
      exact max_eq_right (Nat.le_succ n)
  rcases hr with ⟨hnone, hpast, -⟩ | hsome
  · rw [hnone, hpast]
    rfl
  · rw [lastGeneration, hsome, Option.getD_some, List.map_map]
    show ((b.pages.map fun p => p.generation).foldl max 0) = _
    rw [hn.pages_generations, hmax]

theorem insertFirst_eq : Table.insertOrIgnore (fun r => r.generation == 0 || r.sessionId == FIRST_MAIN_ID)
    ⟨0, FIRST_MAIN_ID, none, none, none, none⟩ (mains.getD []) = b.pages.map Page.row := by
  rcases hr with ⟨hnone, hpast, hrow⟩ | hsome
  · rw [hnone, Book.pages, hpast]
    show _ = [b.current.row]
    rw [hrow]
    rfl
  · have hzero : 0 ∈ b.pages.map (·.generation) := by
      rw [hn.pages_generations, List.mem_range]
      omega
    obtain ⟨p, hp, hgen⟩ := List.mem_map.1 hzero
    rw [hsome, Option.getD_some, Table.insertOrIgnore, if_pos]
    exact List.any_eq_true.2 ⟨p.row, List.mem_map_of_mem hp, by simp [Page.row, hgen]⟩

omit hr in
/-- The row of the conversation that ends is the last. -/
theorem update_current (f : MainRow → MainRow) :
    Table.update (·.sessionId == b.current.id) f (b.pages.map Page.row) = b.past.map Page.row ++ [f b.current.row] := by
  have hpast : Table.update (·.sessionId == b.current.id) f (b.past.map Page.row) = b.past.map Page.row := by
    refine Table.update_of_forall_not (Table.one_eq_none.2 fun r hr => ?_)
    obtain ⟨p, hp, rfl⟩ := List.mem_map.1 hr
    exact beq_false_of_ne (hn.id_ne hp)
  rw [Book.pages, List.map_append, Table.update, List.map_append, ← Table.update, hpast, List.map_singleton, List.map_singleton]
  exact congrArg (fun r => b.past.map Page.row ++ [r]) (if_pos (beq_self_eq_true b.current.id))

theorem recordMain_turn : recordMain b.current.id (mainId (b.past.length + 1)) (b.past.length + 1) now cause (mains.getD []) =
    some ((b.turn false (mainId (b.past.length + 1)) now cause).pages.map Page.row) := by
  have hrows : b.past.map Page.row ++ [{ b.current.row with
      endedAt := some now, archivedAs := some (archivedName b.current.id) }] =
      (b.turn false (mainId (b.past.length + 1)) now cause).past.map Page.row := by
    rw [Book.turn, List.map_append]
    rfl
  have hfree : ∀ r ∈ (b.turn false (mainId (b.past.length + 1)) now cause).past.map Page.row,
      (r.generation == b.past.length + 1 || r.sessionId == mainId (b.past.length + 1)) = false := by
    intro r hmem
    obtain ⟨p, hp, rfl⟩ := List.mem_map.1 hmem
    have hgen : p.generation ≤ b.past.length ∧ p.id = mainId p.generation := by
      rcases List.mem_append.1 hp with hp | hp
      · exact ⟨Nat.le_of_lt (hn.lt hp), hn.ids p (mem_pages.2 (.inl hp))⟩
      · rw [List.mem_singleton.1 hp]
        exact ⟨Nat.le_of_eq hn.now, hn.ids b.current (current_mem b)⟩
    have hid : p.id ≠ mainId (b.past.length + 1) := by
      rw [hgen.2]
      exact fun h => absurd (mainId_injective h) (by omega)
    simp only [Page.row, Bool.or_eq_false_iff, beq_eq_false_iff_ne]
    exact ⟨by omega, hid⟩
  rw [recordMain, insertFirst_eq hn hr, update_current hn, hrows, Table.insert, if_neg]
  · rw [Book.pages, List.map_append]
    rfl
  · rw [Bool.not_eq_true, Table.any_eq_false]
    exact Table.one_eq_none.2 hfree

/-- A generation that is taken is refused. -/
theorem recordMain_full (new : Str) :
    recordMain b.current.id new b.past.length now cause (mains.getD []) = none := by
  rw [recordMain, insertFirst_eq hn hr, update_current hn, Table.insert, if_pos]
  refine List.any_eq_true.2 ⟨_, List.mem_append_right _ (List.mem_singleton_self _), ?_⟩
  simp [Page.row, hn.now]

omit hr in
theorem numbered_turn (erase : Bool) (hlt : b.past.length < MAX_EXACT) :
    Numbered (b.turn erase (mainId (b.past.length + 1)) now cause) where
  generations := by
    rw [Book.turn, List.map_append, List.length_append, List.length_singleton, hn.generations, List.range_succ]
    exact congrArg _ (congrArg (fun g => [g]) hn.now)
  now := by
    rw [Book.turn, List.length_append, List.length_singleton]
  ids p hp := by
    rcases mem_pages.1 hp with h | rfl
    · rcases List.mem_append.1 h with h | h
      · exact hn.ids p (mem_pages.2 (.inl h))
      · rw [List.mem_singleton.1 h]
        exact hn.ids b.current (current_mem b)
    · rfl
  bounded := by
    rw [Book.turn, List.length_append, List.length_singleton]
    exact hlt
  ended p hp := by
    rcases List.mem_append.1 hp with h | h
    · exact hn.ended p h
    · rw [List.mem_singleton.1 h]
      rfl
  open_ := rfl
  kept := rfl

end Turn

/-! ## The logical conversation -/

section Logical

variable {all all' : List MainSession} {x : MainSession}

theorem chainStart_le (all : List MainSession) (i : Nat) : chainStart all i ≤ i := by
  induction i with
  | zero => exact Nat.le_refl 0
  | succ i ih =>
    rw [chainStart]
    split
    · exact Nat.le_succ_of_le ih
    · exact Nat.le_refl _

/-- The loop reads the causes up to where it starts. -/
theorem chainStart_congr {i : Nat} (h : ∀ j ≤ i, (all'[j]?).map (·.cause) = (all[j]?).map (·.cause)) :
    chainStart all' i = chainStart all i := by
  induction i with
  | zero => rfl
  | succ i ih =>
    have hcause : ∀ o : Option MainSession, o.any (·.cause == some .rebuild) = (o.map (·.cause)).any (· == some .rebuild) := by
      intro o
      cases o <;> rfl
    rw [chainStart, chainStart, hcause, hcause, h (i + 1) (Nat.le_refl _), ih fun j hj => h j (Nat.le_succ_of_le hj)]

theorem logicalOf_eq {i : Nat} (h : chainStart all (all.length - 1) = i) : logicalOf all =
    ⟨((all.drop i).map (·.sessionId)).headD [], (all.drop i).map (·.sessionId), (all.drop i).length - 1⟩ := by
  rw [logicalOf, h, List.length_map]

/-- Only the ids and the causes of the conversations matter. -/
theorem logicalOf_congr (h : all'.map (fun s => (s.sessionId, s.cause)) = all.map fun s => (s.sessionId, s.cause)) :
    logicalOf all' = logicalOf all := by
  have hids : all'.map (·.sessionId) = all.map (·.sessionId) := by
    have hfst := congrArg (List.map Prod.fst) h
    rwa [List.map_map, List.map_map] at hfst
  have hcauses : all'.map (·.cause) = all.map (·.cause) := by
    have hsnd := congrArg (List.map Prod.snd) h
    rwa [List.map_map, List.map_map] at hsnd
  have hlen : all'.length = all.length := by simpa using congrArg List.length h
  have hstart : chainStart all' (all'.length - 1) = chainStart all (all.length - 1) := by
    rw [hlen]
    refine chainStart_congr fun j _ => ?_
    rw [← List.getElem?_map, hcauses, List.getElem?_map]
  rw [logicalOf_eq hstart, logicalOf_eq rfl, List.map_drop, List.map_drop, List.length_drop, List.length_drop, hids, hlen]

theorem getElem?_concat (all : List MainSession) (x : MainSession) : (all ++ [x])[all.length]? = some x :=
  List.getElem?_concat_length

/-- A rebuild adds a transcript to the conversation there is. -/
theorem logicalOf_rebuild (hne : all ≠ []) (hx : x.cause = some .rebuild) : logicalOf (all ++ [x]) =
    ⟨(logicalOf all).conversation, (logicalOf all).transcripts ++ [x.sessionId], (logicalOf all).rebuilds + 1⟩ := by
  obtain ⟨n, hlen⟩ : ∃ n, all.length = n + 1 := Nat.exists_eq_succ_of_ne_zero (by simpa using hne)
  have hstart : chainStart (all ++ [x]) ((all ++ [x]).length - 1) = chainStart all (all.length - 1) := by
    have hlast : (all ++ [x])[n + 1]? = some x := by rw [← hlen]; exact getElem?_concat all x
    rw [List.length_append, List.length_singleton, Nat.add_sub_cancel, hlen, chainStart, hlast, Option.any_some, hx,
      if_pos (beq_self_eq_true _)]
    refine chainStart_congr fun j hj => ?_
    rw [List.getElem?_append_left (by omega)]
  have hle := chainStart_le all (all.length - 1)
  have hdrop : (all ++ [x]).drop (chainStart all (all.length - 1)) = all.drop (chainStart all (all.length - 1)) ++ [x] :=
    List.drop_append_of_le_length (by omega)
  have hpos : 0 < (all.drop (chainStart all (all.length - 1))).length := by
    rw [List.length_drop]
    omega
  obtain ⟨y, rest, hy⟩ := List.exists_cons_of_length_pos hpos
  rw [logicalOf_eq hstart, logicalOf_eq rfl, hdrop, hy, List.map_append, List.length_append, List.length_singleton]
  rfl

/-- Any other start begins a conversation of its own. -/
theorem logicalOf_fresh (hx : x.cause ≠ some .rebuild) : logicalOf (all ++ [x]) = ⟨x.sessionId, [x.sessionId], 0⟩ := by
  have hstart : chainStart (all ++ [x]) ((all ++ [x]).length - 1) = all.length := by
    rw [List.length_append, List.length_singleton, Nat.add_sub_cancel]
    cases hlen : all.length with
    | zero => rfl
    | succ n =>
      have hlast : (all ++ [x])[n + 1]? = some x := by rw [← hlen]; exact getElem?_concat all x
      rw [chainStart, hlast, Option.any_some, if_neg (by simpa using hx)]
  rw [logicalOf_eq hstart, List.drop_left]
  rfl

end Logical

end Antiproton.Conversations
