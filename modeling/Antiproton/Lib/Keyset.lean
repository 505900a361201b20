import Mathlib.Order.Basic
import Mathlib.Data.List.Sort

/-!
# Antiproton.Lib.Keyset

Pages of an ordered list, each from past the key the one before ended with. Nothing here depends on what the items are.

* `follow_ascending`: on a list that does not change, the pages are the list.
* `walk_finds`: an item that stays and moves forward only is on some page, whatever comes and goes between the pages.
-/

namespace Keyset

variable {A K : Type} [LinearOrder K] (key : A → K)

/-- The items in strict order of their keys. -/
def Ascending (l : List A) : Prop := l.Pairwise fun x y => key x < key y

/-- The items past a key. -/
def past (after : Option K) (l : List A) : List A := l.filter fun x => after.all fun k => decide (k < key x)

/-- A page of at most `n` items, and the key of its last where more remain. -/
def page (n : Nat) (after : Option K) (l : List A) : List A × Option K :=
  let found := (past key after l).take (n + 1)
  if n < found.length then (found.take n, (found.take n).getLast?.map key) else (found, none)

/-- The items of every page from one on, none where the pages did not end. -/
def follow (n : Nat) (l : List A) : Nat → Option K → Option (List A)
  | 0, _ => none
  | fuel + 1, after =>
    match (page key n after l).2 with
    | none => some (page key n after l).1
    | some k => (follow n l fuel (some k)).map ((page key n after l).1 ++ ·)

/-- The items of the pages read from one list after another, and where a walk that has not ended stands. -/
def walk (n : Nat) : List (List A) → Option K → List A × Option (Option K)
  | [], after => ([], some after)
  | l :: ls, after =>
    match (page key n after l).2 with
    | none => ((page key n after l).1, none)
    | some k => ((page key n after l).1 ++ (walk n ls (some k)).1, (walk n ls (some k)).2)

section Pages

variable {key} {l : List A} {after : Option K} {n : Nat} {x : A}

theorem mem_past : x ∈ past key after l ↔ x ∈ l ∧ ∀ k, after = some k → k < key x := by
  unfold past
  rw [List.mem_filter]
  cases after <;> simp

theorem Ascending.past (h : Ascending key l) (after : Option K) : Ascending key (past key after l) := h.filter _

theorem Ascending.unique (h : Ascending key l) {y : A} (hx : x ∈ l) (hy : y ∈ l) (heq : key x = key y) : x = y := by
  have hnodup : (l.map key).Nodup := List.pairwise_map.2 (h.imp ne_of_lt)
  exact List.inj_on_of_nodup_map hnodup hx hy heq

theorem Ascending.nodup (h : Ascending key l) : l.Nodup := h.imp fun hlt heq => absurd (heq ▸ hlt) (lt_irrefl _)

/-- A page with more after it: its items, the first past the key, and where it ended. -/
theorem page_more (h : n < (past key after l).length) (hn : 0 < n) :
    ∃ last, (past key after l).take n = (past key after l).take (n - 1) ++ [last] ∧
      page key n after l = ((past key after l).take n, some (key last)) := by
  have hlen : n < ((past key after l).take (n + 1)).length := by rw [List.length_take]; omega
  have htake : ((past key after l).take (n + 1)).take n = (past key after l).take n := by
    rw [List.take_take, min_eq_left (Nat.le_succ n)]
  obtain ⟨m, rfl⟩ := Nat.exists_eq_add_one_of_ne_zero (Nat.ne_of_gt hn)
  have hget : m < (past key after l).length := by omega
  have hsplit : (past key after l).take (m + 1) = (past key after l).take m ++ [(past key after l)[m]] :=
    (List.take_append_getElem hget).symm
  refine ⟨(past key after l)[m], hsplit, ?_⟩
  unfold page
  dsimp only
  rw [if_pos hlen, htake]
  refine Prod.ext rfl ?_
  dsimp only
  rw [hsplit, List.getLast?_concat]
  rfl

theorem page_end (h : (past key after l).length ≤ n) : page key n after l = (past key after l, none) := by
  unfold page
  dsimp only
  rw [List.take_of_length_le (by omega), if_neg (by omega)]

/-- What is past the last item of a page is what the page left. -/
theorem past_page (ha : Ascending key l) {before rest : List A} {last : A} (h : past key after l = before ++ last :: rest) :
    past key (some (key last)) l = rest := by
  have hpast := ha.past after
  rw [h] at hpast
  obtain ⟨-, hlast, hcross⟩ := List.pairwise_append.1 hpast
  have hrest : ∀ y ∈ rest, key last < key y := (List.pairwise_cons.1 hlast).1
  have hmem : last ∈ past key after l := h ▸ List.mem_append_right _ List.mem_cons_self
  -- past the last item is past where the page began
  have htwice : past key (some (key last)) l = past key (some (key last)) (past key after l) := by
    unfold past
    rw [List.filter_filter]
    refine List.filter_congr fun y _ => ?_
    cases after with
    | none => simp
    | some k =>
      have hk := (mem_past.1 hmem).2 k rfl
      by_cases hy : key last < key y
      · simp [hy, hk.trans hy]
      · simp [hy]
  rw [htwice, h]
  unfold past
  rw [List.filter_append, List.filter_cons_of_neg (by simp), List.filter_eq_nil_iff.2, List.nil_append,
    List.filter_eq_self.2]
  · exact fun y hy => by simpa using hrest y hy
  · intro y hy
    have := hcross y hy last List.mem_cons_self
    simpa using le_of_lt this

/-- The pages of a list that does not change are the list. -/
theorem follow_past (ha : Ascending key l) (hn : 0 < n) {fuel : Nat} (hfuel : (past key after l).length < fuel) :
    follow key n l fuel after = some (past key after l) := by
  induction fuel generalizing after with
  | zero => omega
  | succ fuel ih =>
    unfold follow
    rcases Nat.lt_or_ge n (past key after l).length with hmore | hend
    · obtain ⟨last, hsplit, hpage⟩ := page_more hmore hn
      have hwhole : past key after l = (past key after l).take (n - 1) ++ last :: (past key after l).drop n := by
        conv_lhs => rw [← List.take_append_drop n (past key after l), hsplit]
        rw [List.append_assoc, List.singleton_append]
      have hrest := past_page ha hwhole
      rw [hpage]
      dsimp only
      rw [ih (by rw [hrest, List.length_drop]; omega), hrest, Option.map_some, List.take_append_drop]
    · rw [page_end hend]

theorem follow_ascending (ha : Ascending key l) (hn : 0 < n) {fuel : Nat} (hfuel : l.length < fuel) :
    follow key n l fuel none = some l := by
  have hpast : past key none l = l := List.filter_eq_self.2 fun _ _ => rfl
  have h : follow key n l fuel none = some (past key none l) := follow_past ha hn (hpast.symm ▸ hfuel)
  rwa [hpast] at h

/-- An item past where a page begins is on it, or past where it ends. -/
theorem page_finds (ha : Ascending key l) (hn : 0 < n) (hx : x ∈ past key after l) :
    x ∈ (page key n after l).1 ∨ ∃ k, (page key n after l).2 = some k ∧ k < key x := by
  rcases Nat.lt_or_ge n (past key after l).length with hmore | hend
  · obtain ⟨last, hsplit, hpage⟩ := page_more hmore hn
    rw [hpage]
    have hpast := ha.past after
    rw [← List.take_append_drop n (past key after l)] at hx hpast
    rcases List.mem_append.1 hx with hx | hx
    · exact .inl hx
    · refine .inr ⟨_, rfl, (List.pairwise_append.1 hpast).2.2 last ?_ x hx⟩
      rw [hsplit]
      exact List.mem_append_right _ List.mem_cons_self
  · rw [page_end hend]
    exact .inl hx

/-- An item that stays, and whose key moves forward only, is on some page of a walk that ends. -/
theorem walk_finds {P : A → Prop} (hn : 0 < n) {ls : List (List A)} (hls : ∀ l ∈ ls, Ascending key l ∧ ∃ x ∈ l, P x)
    (hback : ls.Pairwise fun l l' => ∀ x ∈ l, ∀ y ∈ l', P x → P y → key x ≤ key y)
    (hx : ∀ l ∈ ls.head?, ∀ x ∈ l, P x → ∀ k, after = some k → k < key x) (hend : (walk key n ls after).2 = none) :
    ∃ x ∈ (walk key n ls after).1, P x := by
  induction ls generalizing after with
  | nil => cases hend
  | cons l ls ih =>
    obtain ⟨ha, x, hmem, hp⟩ := hls l List.mem_cons_self
    obtain ⟨hnext, hback⟩ := List.pairwise_cons.1 hback
    unfold walk at hend ⊢
    rcases page_finds ha hn (mem_past.2 ⟨hmem, hx l rfl x hmem hp⟩) with hin | ⟨k, hk, hlt⟩
    · cases hpage : (page key n after l).2 with
      | none => exact ⟨x, hin, hp⟩
      | some k => exact ⟨x, List.mem_append_left _ hin, hp⟩
    · rw [hk] at hend ⊢
      -- the next list holds it past where this page ended
      have hstart : ∀ l' ∈ ls.head?, ∀ y ∈ l', P y → ∀ k', some k = some k' → k' < key y := by
        intro l' hl' y hy hpy k' heq
        cases heq
        exact lt_of_lt_of_le hlt (hnext l' (List.mem_of_mem_head? hl') x hmem y hy hp hpy)
      obtain ⟨y, hy, hpy⟩ := ih (fun l' hl' => hls l' (List.mem_cons_of_mem _ hl')) hback hstart hend
      exact ⟨y, List.mem_append_right _ hy, hpy⟩

end Pages

end Keyset
