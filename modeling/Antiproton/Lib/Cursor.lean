import Mathlib.Data.List.Basic
import Mathlib.Data.List.Nodup
import Mathlib.Data.List.Infix

/-!
# Antiproton.Lib.Cursor

Pages of a list, each from past the item whose id the one before ended with. Nothing here depends on what the items
are. `walk` reads the pages one after another, each from a list of its own.

* `page_past`: past a visited stretch, a page is the next items, and there are more where something is left.
* `walk_forward`: on a list that grows at its end, the pages are the list, with what was appended meanwhile.
* `walk_backward`: on a list that grows at its front, the pages are the list as it was at first.
* `walk_ends`: a walk that always finds enough left to go on outgrows every bound.
-/

namespace Cursor

variable {A I : Type} [DecidableEq I] (id : A → I)

/-- Where a page starts: past the item an id names, none where it names no item. -/
def startOf (l : List A) : Option I → Option Nat
  | none => some 0
  | some i => (l.findIdx? fun x => decide (id x = i)).map (· + 1)

/-- The items of a page, and whether more follow. -/
structure Page (A : Type) where
  data : List A
  more : Bool

/-- A page of at most `n` items. -/
def page (n : Nat) (l : List A) (after : Option I) : Option (Page A) :=
  (startOf id l after).map fun s => ⟨(l.drop s).take n, decide (s + n < l.length)⟩

/-- The page read at each step while the one before said that more follow. -/
def walk (n : Nat) (lists : Nat → List A) : Nat → Option (Page A)
  | 0 => page id n (lists 0) none
  | k + 1 => (walk n lists k).bind fun p =>
    if p.more then page id n (lists (k + 1)) (p.data.getLast?.map id) else none

/-- The items of the pages read so far. -/
def visited (n : Nat) (lists : Nat → List A) : Nat → List A
  | 0 => ((walk id n lists 0).map (·.data)).getD []
  | k + 1 => visited n lists k ++ ((walk id n lists (k + 1)).map (·.data)).getD []

section Pages

variable {id} {n : Nat} {l pre seen left : List A} {p : Page A}

theorem page_first (n : Nat) (l : List A) : page id n l none = some ⟨l.take n, decide (n < l.length)⟩ := by
  simp [page, startOf]

/-- The item an id names stands where it stands. -/
theorem startOf_past {x : A} (hn : (l.map id).Nodup) (hl : l = pre ++ x :: left) :
    startOf id l (some (id x)) = some (pre.length + 1) := by
  subst hl
  rw [List.map_append, List.map_cons, List.nodup_append] at hn
  have hnone : pre.findIdx? (fun y => decide (id y = id x)) = none := by
    rw [List.findIdx?_eq_none_iff]
    intro y hy
    exact decide_eq_false (hn.2.2 _ (List.mem_map_of_mem hy) _ List.mem_cons_self)
  simp [startOf, List.findIdx?_append, hnone, List.findIdx?_cons]

/-- Past a visited stretch, a page is the next items. -/
theorem page_past (hn : (l.map id).Nodup) (hl : l = pre ++ seen ++ left) (hs : seen ≠ []) :
    page id n l (seen.getLast?.map id) = some ⟨left.take n, decide (n < left.length)⟩ := by
  obtain ⟨init, x, rfl⟩ := (List.eq_nil_or_concat seen).resolve_left hs
  have hsplit : l = (pre ++ init) ++ x :: left := by simp [hl]
  have hlen : l.length = (pre ++ init).length + 1 + left.length := by
    rw [hsplit, List.length_append, List.length_cons]
    omega
  have hdrop : l.drop ((pre ++ init).length + 1) = left := by
    rw [hsplit, ← List.drop_drop, List.drop_left]
    rfl
  rw [List.concat_eq_append, List.getLast?_concat, Option.map_some, page, startOf_past hn hsplit, Option.map_some,
    hdrop, hlen]
  congr 2
  exact decide_eq_decide.2 ⟨fun h => by omega, fun h => by omega⟩

theorem more_iff {m : List A} : decide (n < m.length) = !(m.drop n).isEmpty := by
  rw [Bool.eq_iff_iff]
  simp

variable {lists : Nat → List A} {k : Nat}

theorem walk_succ (h : walk id n lists (k + 1) = some p) :
    ∃ q, walk id n lists k = some q ∧ q.more = true ∧ page id n (lists (k + 1)) (q.data.getLast?.map id) = some p := by
  obtain ⟨q, hq, hp⟩ := Option.bind_eq_some_iff.1 h
  split at hp
  · rename_i hmore
    exact ⟨q, hq, hmore, hp⟩
  · cases hp

theorem visited_succ (h : walk id n lists (k + 1) = some p) :
    visited id n lists (k + 1) = visited id n lists k ++ p.data := by
  rw [visited, h]
  rfl

theorem visited_zero (h : walk id n lists 0 = some p) : visited id n lists 0 = p.data := by
  rw [visited, h]
  rfl

/-- What a page says of the items left after it; one before the end is full, and one of no items leaves none. -/
structure Leaves (n : Nat) (p : Page A) (left : List A) : Prop where
  more : p.more = !left.isEmpty
  full : p.more = true → p.data.length = n
  none_left : p.data = [] → left = []

theorem leaves_take (hpos : 0 < n) (m : List A) : Leaves n ⟨m.take n, decide (n < m.length)⟩ (m.drop n) where
  more := more_iff
  full hmore := by
    have hlt := of_decide_eq_true hmore
    rw [List.length_take]
    omega
  none_left hnil := by
    rcases List.take_eq_nil_iff.1 hnil with hzero | hnone
    · omega
    · rw [hnone, List.drop_nil]

theorem Leaves.data_ne (h : Leaves n p left) (hpos : 0 < n) (hmore : p.more = true) : p.data ≠ [] := by
  intro hnil
  have hlen := h.full hmore
  rw [hnil, List.length_nil] at hlen
  omega

/-- On a list that grows at its end, what was visited and what is left are the list. -/
theorem walk_forward (hpos : 0 < n) (hn : ∀ k, ((lists k).map id).Nodup) (hg : ∀ k, lists k <+: lists (k + 1))
    (h : walk id n lists k = some p) :
    ∃ pre left, visited id n lists k = pre ++ p.data ∧ lists k = pre ++ p.data ++ left ∧ Leaves n p left := by
  induction k generalizing p with
  | zero =>
    have hfirst := h
    rw [walk, page_first] at hfirst
    cases hfirst
    exact ⟨[], (lists 0).drop n, visited_zero h, by simp, leaves_take hpos _⟩
  | succ k ih =>
    obtain ⟨q, hq, hmore, hp⟩ := walk_succ h
    obtain ⟨pre, left, hv, hl, hleaves⟩ := ih hq
    obtain ⟨new, hnew⟩ := hg k
    rw [hl, List.append_assoc] at hnew
    rw [page_past (hn (k + 1)) hnew.symm (hleaves.data_ne hpos hmore)] at hp
    cases hp
    refine ⟨pre ++ q.data, (left ++ new).drop n, ?_, ?_, leaves_take hpos _⟩
    · rw [visited_succ h, hv]
    · rw [← hnew, List.append_assoc _ (List.take n _), List.take_append_drop]

/-- On a list that grows at its front, what was visited and what is left are the list as it was at first. -/
theorem walk_backward (hpos : 0 < n) (hn : ∀ k, ((lists k).map id).Nodup) (hg : ∀ k, lists k <:+ lists (k + 1))
    (h : walk id n lists k = some p) :
    ∃ new pre left, visited id n lists k = pre ++ p.data ∧ lists 0 = pre ++ p.data ++ left ∧
      lists k = new ++ lists 0 ∧ Leaves n p left := by
  induction k generalizing p with
  | zero =>
    have hfirst := h
    rw [walk, page_first] at hfirst
    cases hfirst
    exact ⟨[], [], (lists 0).drop n, visited_zero h, by simp, by simp, leaves_take hpos _⟩
  | succ k ih =>
    obtain ⟨q, hq, hmore, hp⟩ := walk_succ h
    obtain ⟨new, pre, left, hv, hl, hk, hleaves⟩ := ih hq
    obtain ⟨newer, hnewer⟩ := hg k
    have hat : lists (k + 1) = (newer ++ new ++ pre) ++ q.data ++ left := by
      rw [← hnewer, hk, hl]
      simp only [List.append_assoc]
    rw [page_past (hn (k + 1)) hat (hleaves.data_ne hpos hmore)] at hp
    cases hp
    refine ⟨newer ++ new, pre ++ q.data, left.drop n, ?_, ?_, ?_, leaves_take hpos _⟩
    · rw [visited_succ h, hv]
    · rw [hl, List.append_assoc _ (List.take n _), List.take_append_drop]
    · rw [← hnewer, hk, List.append_assoc]

/-- On a list that grows at its end, a walk goes on from a page that says that more follow. -/
theorem forward_goes_on (hpos : 0 < n) (hn : ∀ k, ((lists k).map id).Nodup) (hg : ∀ k, lists k <+: lists (k + 1))
    (h : walk id n lists k = some p) (hmore : p.more = true) : (walk id n lists (k + 1)).isSome := by
  obtain ⟨pre, left, -, hl, hleaves⟩ := walk_forward hpos hn hg h
  obtain ⟨new, hnew⟩ := hg k
  rw [hl, List.append_assoc] at hnew
  rw [walk, h, Option.bind_some, if_pos hmore, page_past (hn (k + 1)) hnew.symm (hleaves.data_ne hpos hmore)]
  rfl

/-- So it does on a list that grows at its front. -/
theorem backward_goes_on (hpos : 0 < n) (hn : ∀ k, ((lists k).map id).Nodup) (hg : ∀ k, lists k <:+ lists (k + 1))
    (h : walk id n lists k = some p) (hmore : p.more = true) : (walk id n lists (k + 1)).isSome := by
  obtain ⟨new, pre, left, -, hl, hk, hleaves⟩ := walk_backward hpos hn hg h
  obtain ⟨newer, hnewer⟩ := hg k
  have hat : lists (k + 1) = (newer ++ new ++ pre) ++ p.data ++ left := by
    rw [← hnewer, hk, hl]
    simp only [List.append_assoc]
  rw [walk, h, Option.bind_some, if_pos hmore, page_past (hn (k + 1)) hat (hleaves.data_ne hpos hmore)]
  rfl

/-- Every page before the last is full. -/
theorem visited_length (hfull : ∀ k p, walk id n lists k = some p → p.more = true → p.data.length = n)
    (h : walk id n lists k = some p) : (visited id n lists k).length = k * n + p.data.length := by
  induction k generalizing p with
  | zero => rw [visited_zero h, Nat.zero_mul, Nat.zero_add]
  | succ k ih =>
    obtain ⟨q, hq, hmore, -⟩ := walk_succ h
    rw [visited_succ h, List.length_append, ih hq, hfull k q hq hmore, Nat.succ_mul]

/-- A walk that goes on as long as it is told to, over lists of bounded length, comes to a last page. -/
theorem walk_ends (hpos : 0 < n) (hfull : ∀ k p, walk id n lists k = some p → p.more = true → p.data.length = n)
    (hgo : ∀ k p, walk id n lists k = some p → p.more = true → (walk id n lists (k + 1)).isSome) {bound : Nat}
    (hb : ∀ k p, walk id n lists k = some p → (visited id n lists k).length ≤ bound) :
    ∃ k p, walk id n lists k = some p ∧ p.more = false := by
  by_contra hnever
  have hall : ∀ k, ∃ p, walk id n lists k = some p ∧ p.more = true := by
    intro k
    induction k with
    | zero =>
      refine ⟨_, page_first n (lists 0), ?_⟩
      by_contra hlast
      exact hnever ⟨0, _, page_first n (lists 0), by simpa using hlast⟩
    | succ k ih =>
      obtain ⟨p, hp, hmore⟩ := ih
      obtain ⟨q, hq⟩ := Option.isSome_iff_exists.1 (hgo k p hp hmore)
      refine ⟨q, hq, ?_⟩
      by_contra hlast
      exact hnever ⟨k + 1, q, hq, by simpa using hlast⟩
  obtain ⟨p, hp, hmore⟩ := hall bound
  have hle := hb bound p hp
  rw [visited_length hfull hp, hfull bound p hp hmore] at hle
  have hmul : bound ≤ bound * n := Nat.le_mul_of_pos_right bound hpos
  omega

end Pages

end Cursor
