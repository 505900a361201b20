import Antiproton.Raft.HandOver
import Antiproton.Lib.History

/-!
# Antiproton.Raft.Inbox

The inbox a mount reads with `receive_events` (`src/plugins/raft.ts`) beside Raft's queue: `since = n` acknowledges every
pending row with a seq up to `n`, and a batch is a lowest-seq part of the rows left. The cursor a call computed is kept in
the mount's database and spent by the next pull, so a pull that fails, or a write that does, acknowledges nothing more.

* `inbox_whole`: what was acknowledged was shown, and pulls that go through show everything pending.
* `equal_seqs_stall`: two rows of one seq that do not fit together hold the inbox where it is.
-/

namespace Antiproton.Raft

open Js History

/-- One `receive_events`: what Raft answers to its pull, and how far the call gets. -/
structure Pull where
  /-- How many rows the batch holds at most, less one. -/
  size : Nat
  messages : List RaftMessage
  hasMore : Bool
  replyTarget : Option Str
  unoffered : List Str
  arriving : Bool
  /-- What `inbox.list` answered, where it did. -/
  listing : Option (List Str)
  /-- The pull's answer came back. -/
  answered : Bool
  /-- The cursor was written. -/
  kept : Bool

inductive Event where
  | arrived (m : RaftMessage)
  | pull (p : Pull)
  /-- A call cut off before its pull: the cursor is spent. -/
  | cutOff

structure Mailbox where
  pending : List RaftMessage
  acknowledged : List RaftMessage
  /-- The cursor kept from the last call, and what the calls showed the model. -/
  since : Option Int
  shown : List RaftMessage

def Mailbox.empty : Mailbox := ⟨[], [], none, []⟩

section Calls

variable (withNamesOnOneLine : RaftMessage → RaftMessage) (offeredTerms : Str → List Str → Str)

def Pull.batch (p : Pull) : RaftInboxBatch := ⟨p.messages, p.hasMore, p.replyTarget, false⟩

/-- What the call hands over: with the listing's lines when more remains and Raft listed it. -/
def Pull.given (p : Pull) : HandOver :=
  let given := handOver withNamesOnOneLine offeredTerms p.batch p.unoffered none p.arriving
  if given.result.field? (js "hasMore") = some (.bool true) ∧ p.listing.isSome then
    handOver withNamesOnOneLine offeredTerms p.batch p.unoffered p.listing p.arriving
  else given

/-- The row is acknowledged by a pull with this cursor. -/
def covered (since : Option Int) (m : RaftMessage) : Bool := since.any fun c => decide (seqOf m ≤ c)

/-- The rows a pull leaves pending. -/
def Mailbox.left (w : Mailbox) : List RaftMessage := w.pending.filter fun m => !covered w.since m

/-- The batch is one Raft gives: a lowest-seq part of the rows left, in any order, and any messages without a seq. -/
def Pull.offered (p : Pull) (w : Mailbox) : Prop :=
  (p.messages.filter (·.seq.isSome)).Perm ((Table.orderBy seqOf w.left).take (p.size + 1))

instance (p : Pull) (w : Mailbox) : Decidable (p.offered w) := inferInstanceAs (Decidable (List.Perm _ _))

def Mailbox.step (e : Event) (w : Mailbox) : Unit × Mailbox :=
  match e with
  | .arrived m => ((), { w with pending := w.pending ++ [m] })
  | .cutOff => ((), { w with since := none })
  | .pull p =>
    if p.offered w then
      let w' : Mailbox := ⟨w.left, w.acknowledged ++ w.pending.filter (covered w.since), none, w.shown⟩
      if p.answered then
        let given := p.given withNamesOnOneLine offeredTerms
        ((), { w' with
          shown := w.shown ++ given.shown
          since := if p.kept then given.cursor else none })
      else ((), w')
    else ((), w)

/-- A row's seq is above that of every row before it: Raft's global seq. -/
def Event.Global (w : Mailbox) : Event → Prop
  | .arrived m => m.seq.isSome ∧ ∀ r ∈ w.pending ++ w.acknowledged, seqOf r < seqOf m
  | _ => True

/-- A pull that goes through, of queued messages only. -/
def Event.Through (w : Mailbox) : Event → Prop
  | .arrived _ | .cutOff => False
  | .pull p => p.offered w ∧ p.answered = true ∧ p.kept = true ∧ ∀ m ∈ p.messages, m.seq.isSome

/-- The rows in order, and what the kept cursor covers shown. -/
structure Sound (w : Mailbox) : Prop where
  ascending : w.pending.Pairwise fun m m' => seqOf m < seqOf m'
  seqs : ∀ m ∈ w.pending, m.seq.isSome = true
  acknowledged : ∀ m ∈ w.acknowledged, m ∈ w.shown
  covered : ∀ m ∈ w.pending, covered w.since m = true → m ∈ w.shown
  bounded : ∀ c, w.since = some c → ∃ r ∈ w.pending ++ w.acknowledged, c ≤ seqOf r

end Calls

/-! ## One pull -/

section Step

variable (withNamesOnOneLine : RaftMessage → RaftMessage) (offeredTerms : Str → List Str → Str) {w : Mailbox} {p : Pull}

theorem given_handedOver (p : Pull) : ∃ inbox k, HandedOver withNamesOnOneLine offeredTerms p.batch p.unoffered inbox p.arriving
    (p.given withNamesOnOneLine offeredTerms) k := by
  unfold Pull.given
  dsimp only
  split
  · exact ⟨_, handOver_handedOver _ _ p.batch _ _ _ rfl⟩
  · exact ⟨_, handOver_handedOver _ _ p.batch _ _ _ rfl⟩

theorem mem_left {m : RaftMessage} : m ∈ w.left ↔ m ∈ w.pending ∧ covered w.since m = false := by
  rw [Mailbox.left, List.mem_filter, Bool.not_eq_true']

theorem left_ascending (h : Sound w) : w.left.Pairwise fun m m' => seqOf m < seqOf m' := h.ascending.filter _

/-- Rows in strict order are told apart by their seqs. -/
theorem ascending_inj {l : List RaftMessage} (h : l.Pairwise fun m m' => seqOf m < seqOf m') {m m' : RaftMessage}
    (hm : m ∈ l) (hm' : m' ∈ l) (heq : seqOf m = seqOf m') : m = m' := by
  have hnodup : (l.map seqOf).Nodup := List.pairwise_map.2 (h.imp ne_of_lt)
  exact List.inj_on_of_nodup_map hnodup hm hm' heq

/-- The queued messages of a batch Raft gives are the first of the rows left. -/
theorem queued_offered (h : Sound w) (ho : p.offered w) : p.batch.queued = w.left.take (p.size + 1) := by
  have hasc := left_ascending h
  have hle : w.left.Pairwise fun m m' => seqOf m ≤ seqOf m' := hasc.imp le_of_lt
  have hsorted : Table.orderBy seqOf w.left = w.left := List.Pairwise.insertionSort_eq hle
  have hperm : p.batch.queued.Perm (w.left.take (p.size + 1)) :=
    (Table.orderBy_perm seqOf (p.messages.filter (·.seq.isSome))).trans (hsorted ▸ ho)
  refine List.Perm.eq_of_pairwise ?_ (queued_ascending _) (hle.sublist (List.take_sublist ..)) hperm
  intro m m' hm hm' hmm hm'm
  exact ascending_inj hasc (List.mem_of_mem_take (hperm.mem_iff.1 hm)) (List.mem_of_mem_take hm') (le_antisymm hmm hm'm)

/-- The cursor of a batch is at or below the seq of one of its rows. -/
theorem cursor_bounded {inbox : Option (List Str)} {g : HandOver} {k : Nat} {batch : RaftInboxBatch} {unoffered : List Str}
    {arriving : Bool} (hgiven : HandedOver withNamesOnOneLine offeredTerms batch unoffered inbox arriving g k) {c : Int}
    (hc : g.cursor = some c) : ∃ r ∈ batch.queued, c ≤ seqOf r := by
  rcases Nat.eq_or_lt_of_le hgiven.shown.1 with hk | hk
  · obtain ⟨last, hlast, rfl⟩ := Option.map_eq_some_iff.1 ((hgiven.largest hk).1.symm.trans hc)
    exact ⟨last, List.mem_of_getLast? hlast, le_refl _⟩
  · have hmem : batch.queued[k] ∈ batch.queued.drop k := by
      rw [List.drop_eq_getElem_cons hk]
      exact List.mem_cons_self
    exact ⟨_, List.getElem_mem hk, le_of_lt (hgiven.below c hc _ hmem)⟩

/-- What a batch's cursor covers of the rows left was shown with it. -/
theorem given_covered (h : Sound w) (ho : p.offered w) {m : RaftMessage} (hm : m ∈ w.left)
    (hc : covered (p.given withNamesOnOneLine offeredTerms).cursor m = true) :
    m ∈ (p.given withNamesOnOneLine offeredTerms).shown := by
  obtain ⟨inbox, k, hgiven⟩ := given_handedOver withNamesOnOneLine offeredTerms p
  obtain ⟨c, hcursor, hle⟩ := (Option.any_eq_true ..).1 hc
  have hle : seqOf m ≤ c := of_decide_eq_true hle
  have hq := queued_offered h ho
  rw [hgiven.shown.2]
  by_cases hin : m ∈ p.batch.queued
  · rw [← List.take_append_drop k p.batch.queued] at hin
    rcases List.mem_append.1 hin with hin | hin
    · exact List.mem_append_left _ hin
    · have := hgiven.below c hcursor m hin
      omega
  · -- a row the batch does not hold lies above all of it, so above the cursor
    obtain ⟨r, hr, hcr⟩ := cursor_bounded _ _ hgiven hcursor
    have hasc := left_ascending h
    rw [hq] at hr hin
    rw [← List.take_append_drop (p.size + 1) w.left] at hm hasc
    have hm := (List.mem_append.1 hm).resolve_left hin
    have := (List.pairwise_append.1 hasc).2.2 r hr m hm
    omega

theorem sound_step (e : Event) (w : Mailbox) (h : Sound w) (hg : e.Global w) :
    Sound (w.step withNamesOnOneLine offeredTerms e).2 := by
  cases e with
  | arrived m =>
    obtain ⟨hseq, habove⟩ := hg
    have hpend : ∀ r ∈ w.pending, seqOf r < seqOf m := fun r hr => habove r (List.mem_append_left _ hr)
    refine ⟨?_, ?_, h.acknowledged, ?_, ?_⟩
    · refine List.pairwise_append.2 ⟨h.ascending, List.pairwise_singleton .., fun r hr x hx => ?_⟩
      rw [List.mem_singleton.1 hx]
      exact hpend r hr
    · intro x hx
      rcases List.mem_append.1 hx with hx | hx
      · exact h.seqs x hx
      · rwa [List.mem_singleton.1 hx]
    · intro x hx hc
      rcases List.mem_append.1 hx with hx | hx
      · exact h.covered x hx hc
      · -- the row that arrived is above the cursor, which is no higher than an earlier row
        rw [List.mem_singleton.1 hx] at hc
        obtain ⟨c, hcursor, hle⟩ := (Option.any_eq_true ..).1 hc
        obtain ⟨r, hr, hcr⟩ := h.bounded c hcursor
        have hlt := habove r hr
        have hle : seqOf m ≤ c := of_decide_eq_true hle
        omega
    · intro c hc
      obtain ⟨r, hr, hcr⟩ := h.bounded c hc
      refine ⟨r, ?_, hcr⟩
      rcases List.mem_append.1 hr with hr | hr
      · exact List.mem_append_left _ (List.mem_append_left _ hr)
      · exact List.mem_append_right _ hr
  | cutOff => exact ⟨h.ascending, h.seqs, h.acknowledged, fun x _ hc => (by cases hc), fun c hc => by cases hc⟩
  | pull p =>
    have hack : ∀ m ∈ w.acknowledged ++ w.pending.filter (covered w.since), m ∈ w.shown := by
      intro m hm
      rcases List.mem_append.1 hm with hm | hm
      · exact h.acknowledged m hm
      · exact h.covered m (List.mem_filter.1 hm).1 (List.mem_filter.1 hm).2
    have hseqs : ∀ m ∈ w.left, m.seq.isSome = true := fun m hm => h.seqs m (List.mem_filter.1 hm).1
    unfold Mailbox.step
    dsimp only
    split
    · rename_i ho
      split
      · refine ⟨left_ascending h, hseqs, fun m hm => List.mem_append_left _ (hack m hm), fun m hm hc => ?_, fun c hc => ?_⟩
        · cases hkept : p.kept with
          | false =>
            rw [hkept, if_neg Bool.false_ne_true] at hc
            cases hc
          | true =>
            rw [hkept, if_pos rfl] at hc
            exact List.mem_append_right _ (given_covered _ _ h ho hm hc)
        · cases hkept : p.kept with
          | false =>
            rw [hkept] at hc
            cases hc
          | true =>
            rw [hkept] at hc
            obtain ⟨inbox, k, hgiven⟩ := given_handedOver withNamesOnOneLine offeredTerms p
            obtain ⟨r, hr, hcr⟩ := cursor_bounded _ _ hgiven hc
            rw [queued_offered h ho] at hr
            exact ⟨r, List.mem_append_left _ (List.mem_of_mem_take hr), hcr⟩
      · exact ⟨left_ascending h, hseqs, hack, fun m _ hc => (by cases hc), fun c hc => by cases hc⟩
    · exact h

end Step

/-! ## Pulls that go through -/

section Drain

variable (withNamesOnOneLine : RaftMessage → RaftMessage) (offeredTerms : Str → List Str → Str) {w : Mailbox}

/-- A batch that shows a queued message is followed by a cursor that covers the first. -/
theorem cursor_covers_first {inbox : Option (List Str)} {g : HandOver} {k : Nat} {batch : RaftInboxBatch} {unoffered : List Str}
    {arriving : Bool} (hgiven : HandedOver withNamesOnOneLine offeredTerms batch unoffered inbox arriving g k)
    (hasc : batch.queued.Pairwise fun m m' => seqOf m < seqOf m') (hk : 0 < k) {first : RaftMessage} {rest : List RaftMessage}
    (hhead : batch.queued = first :: rest) : covered g.cursor first = true := by
  refine (Option.any_eq_true ..).2 ?_
  have hmem : first ∈ batch.queued := hhead ▸ List.mem_cons_self
  rcases Nat.eq_or_lt_of_le hgiven.shown.1 with hall | hlt
  · obtain ⟨hlast, hle⟩ := hgiven.largest hall
    rw [hhead, List.getLast?_cons] at hlast
    exact ⟨_, hlast, decide_eq_true (hle _ hlast first hmem)⟩
  · have hcursor : g.cursor = some (seqOf batch.queued[k] - 1) := by
      rw [hgiven.cursor, RaftInboxBatch.cursorAt, if_neg (ne_of_lt hlt), List.getElem?_eq_getElem hlt]
      rfl
    have hfirst : first ∈ batch.queued.take k := by
      obtain ⟨k, rfl⟩ := Nat.exists_eq_add_one_of_ne_zero (Nat.ne_of_gt hk)
      rw [hhead, List.take_succ_cons]
      exact List.mem_cons_self
    have hnext : batch.queued[k] ∈ batch.queued.drop k := by
      rw [List.drop_eq_getElem_cons hlt]
      exact List.mem_cons_self
    rw [← List.take_append_drop k batch.queued] at hasc
    have hless := (List.pairwise_append.1 hasc).2.2 first hfirst _ hnext
    exact ⟨_, hcursor, decide_eq_true (by omega)⟩

/-- A pull that goes through leaves fewer rows for the next, unless none is left. -/
theorem left_through {p : Pull} (h : Sound w) (ht : (Event.pull p).Through w) :
    (w.step withNamesOnOneLine offeredTerms (.pull p)).2.left.length ≤ w.left.length - 1 := by
  obtain ⟨ho, hans, hkept, hseqs⟩ := ht
  unfold Mailbox.step
  dsimp only
  rw [if_pos ho, if_pos hans, hkept, if_pos rfl]
  unfold Mailbox.left
  dsimp only
  obtain ⟨inbox, k, hgiven⟩ := given_handedOver withNamesOnOneLine offeredTerms p
  have hoff : p.batch.handedOff = [] := by
    refine List.filter_eq_nil_iff.2 fun m hm => ?_
    have hsome : m.seq.isSome = true := hseqs m hm
    rw [Option.isNone_iff_eq_none]
    intro hnone
    rw [hnone] at hsome
    cases hsome
  have hq := queued_offered h ho
  by_cases hleft : w.left = []
  · have hnil : w.pending.filter (fun m => !covered w.since m) = [] := hleft
    rw [hnil]
    exact le_refl 0
  · have hne : p.batch.queued ≠ [] := by
      rw [hq, Ne, List.take_eq_nil_iff]
      rintro (hsize | hnil)
      · omega
      · exact hleft hnil
    have hk := hgiven.moves hoff hne
    obtain ⟨first, rest, hcons⟩ := List.exists_cons_of_ne_nil hleft
    have hhead : p.batch.queued = first :: rest.take p.size := by rw [hq, hcons, List.take_succ_cons]
    have hcov : covered (p.given withNamesOnOneLine offeredTerms).cursor first = true :=
      cursor_covers_first _ _ hgiven (hq ▸ (left_ascending h).sublist (List.take_sublist ..)) hk hhead
    have hlen : (w.left.filter fun m => !covered (p.given withNamesOnOneLine offeredTerms).cursor m).length < w.left.length := by
      rw [hcons, List.filter_cons_of_neg (by rw [hcov]; exact Bool.false_ne_true)]
      have := List.length_filter_le (fun m => !covered (p.given withNamesOnOneLine offeredTerms).cursor m) rest
      rw [List.length_cons]
      omega
    exact Nat.le_sub_one_of_lt hlen

/-- After as many pulls that go through as rows are left, none is left. -/
theorem left_drained (h : Sound w) {pulls : List Event}
    (ht : ∀ x ∈ turns (Mailbox.step withNamesOnOneLine offeredTerms) pulls w, x.act.Through x.before)
    (hlen : w.left.length ≤ pulls.length) : (final (Mailbox.step withNamesOnOneLine offeredTerms) pulls w).left = [] := by
  induction pulls generalizing w with
  | nil => exact List.length_eq_zero_iff.1 (Nat.le_zero.1 hlen)
  | cons e pulls ih =>
    have hnow : e.Through w := ht _ List.mem_cons_self
    cases e with
    | arrived m => exact hnow.elim
    | cutOff => exact hnow.elim
    | pull p =>
      have hless := left_through withNamesOnOneLine offeredTerms h hnow
      rw [List.length_cons] at hlen
      exact ih (sound_step _ _ _ w h trivial) (fun x hx => ht x (List.mem_cons_of_mem _ hx)) (hless.trans (by omega))

/-- A row Raft took in is pending or acknowledged. -/
theorem rows_step {m : RaftMessage} (e : Event) (w : Mailbox) (h : m ∈ w.pending ++ w.acknowledged) :
    m ∈ (w.step withNamesOnOneLine offeredTerms e).2.pending ++ (w.step withNamesOnOneLine offeredTerms e).2.acknowledged := by
  have hsplit : m ∈ w.left ++ (w.acknowledged ++ w.pending.filter (covered w.since)) := by
    rcases List.mem_append.1 h with h | h
    · cases hc : covered w.since m with
      | false => exact List.mem_append_left _ (mem_left.2 ⟨h, hc⟩)
      | true => exact List.mem_append_right _ (List.mem_append_right _ (List.mem_filter.2 ⟨h, hc⟩))
    · exact List.mem_append_right _ (List.mem_append_left _ h)
  cases e with
  | arrived x =>
    rcases List.mem_append.1 h with h | h
    · exact List.mem_append_left _ (List.mem_append_left _ h)
    · exact List.mem_append_right _ h
  | cutOff => exact h
  | pull p =>
    unfold Mailbox.step
    dsimp only
    split
    · split
      · exact hsplit
      · exact hsplit
    · exact h

/-- The inbox: each call's result, nothing acknowledged that was not shown, and pulls that go through show every row. -/
theorem inbox_whole :
    (∀ (batch : RaftInboxBatch) (unoffered : List Str) (inbox : Option (List Str)) (arriving : Bool), batch.onRead = false →
      ∃ k, HandedOver withNamesOnOneLine offeredTerms batch unoffered inbox arriving
        (handOver withNamesOnOneLine offeredTerms batch unoffered inbox arriving) k) ∧
    ∀ acts : List Event,
      (∀ x ∈ turns (Mailbox.step withNamesOnOneLine offeredTerms) acts Mailbox.empty, x.act.Global x.before) →
      (∀ m ∈ (final (Mailbox.step withNamesOnOneLine offeredTerms) acts Mailbox.empty).acknowledged,
        m ∈ (final (Mailbox.step withNamesOnOneLine offeredTerms) acts Mailbox.empty).shown) ∧
      ∀ pulls : List Event,
        (∀ x ∈ turns (Mailbox.step withNamesOnOneLine offeredTerms) pulls
          (final (Mailbox.step withNamesOnOneLine offeredTerms) acts Mailbox.empty), x.act.Through x.before) →
        (final (Mailbox.step withNamesOnOneLine offeredTerms) acts Mailbox.empty).pending.length ≤ pulls.length →
        ∀ m ∈ (final (Mailbox.step withNamesOnOneLine offeredTerms) acts Mailbox.empty).pending ++
            (final (Mailbox.step withNamesOnOneLine offeredTerms) acts Mailbox.empty).acknowledged,
          m ∈ (final (Mailbox.step withNamesOnOneLine offeredTerms) (acts ++ pulls) Mailbox.empty).shown := by
  refine ⟨fun batch unoffered inbox arriving h => handOver_handedOver _ _ batch _ _ _ h, fun acts hg => ?_⟩
  have hempty : Sound Mailbox.empty :=
    ⟨.nil, fun m hm => (List.not_mem_nil hm).elim, fun m hm => (List.not_mem_nil hm).elim,
      fun m hm => (List.not_mem_nil hm).elim, fun c hc => by cases hc⟩
  have hsound : Sound (final (Mailbox.step withNamesOnOneLine offeredTerms) acts Mailbox.empty) :=
    final_guarded hempty (fun e w h hok => sound_step _ _ e w h hok) hg
  refine ⟨hsound.acknowledged, fun pulls hthrough hlen m hm => ?_⟩
  have hleft : (final (Mailbox.step withNamesOnOneLine offeredTerms) acts Mailbox.empty).left.length ≤ pulls.length :=
    (List.length_filter_le ..).trans hlen
  rw [final_append]
  have hend : Sound (final (Mailbox.step withNamesOnOneLine offeredTerms) pulls
      (final (Mailbox.step withNamesOnOneLine offeredTerms) acts Mailbox.empty)) := by
    refine final_guarded hsound (fun e w h hok => sound_step _ _ e w h hok) fun x hx => ?_
    have := hthrough x hx
    cases hact : x.act with
    | arrived m => rw [hact] at this; exact this.elim
    | cutOff => trivial
    | pull p => trivial
  have hnone := left_drained _ _ hsound hthrough hleft
  have hrows : m ∈ (final (Mailbox.step withNamesOnOneLine offeredTerms) pulls _).pending ++
      (final (Mailbox.step withNamesOnOneLine offeredTerms) pulls _).acknowledged :=
    final_invariant (I := fun w => m ∈ w.pending ++ w.acknowledged) hm fun e w h => rows_step _ _ e w h
  rcases List.mem_append.1 hrows with hpend | hack
  · refine hend.covered m hpend ?_
    by_contra hc
    have : m ∈ Mailbox.left _ := mem_left.2 ⟨hpend, Bool.eq_false_iff.2 hc⟩
    rw [hnone] at this
    exact List.not_mem_nil this
  · exact hend.acknowledged m hack

end Drain

/-! ## Rows of one seq -/

section Equal

/-- A message of the given seq and length. -/
def row (seq : Int) (n : Nat) : RaftMessage := ⟨some seq, js "#general", List.replicate n (unit 'a'), [], false⟩

theorem row_length (seq : Int) (n : Nat) : (row seq n).text.length = n := List.length_replicate

def pullOf (messages : List RaftMessage) : Event :=
  .pull ⟨messages.length, messages, false, none, [], false, none, true, true⟩

instance (w : Mailbox) : DecidablePred (Event.Global w) := fun e =>
  match e with
  | .arrived m => inferInstanceAs (Decidable (m.seq.isSome ∧ ∀ r ∈ w.pending ++ w.acknowledged, seqOf r < seqOf m))
  | .pull _ | .cutOff => .isTrue trivial

instance (w : Mailbox) : DecidablePred (Event.Through w) := fun e =>
  match e with
  | .arrived _ | .cutOff => .isFalse fun h => h
  | .pull p => inferInstanceAs (Decidable (p.offered w ∧ p.answered = true ∧ p.kept = true ∧ ∀ m ∈ p.messages, m.seq.isSome))

theorem inbox_whole_two : row 9 5 ∈
    (final (Mailbox.step id fun s _ => s) ([.arrived (row 4 5), .arrived (row 9 5)] ++
      [pullOf [row 9 5, row 4 5], pullOf []]) Mailbox.empty).shown :=
  ((inbox_whole id fun s _ => s).2 [.arrived (row 4 5), .arrived (row 9 5)] (by decide)).2
    [pullOf [row 9 5, row 4 5], pullOf []] (by decide) (by decide) (row 9 5) (by decide)

theorem quoteBody_row (n : Nat) : quoteBody (List.replicate n (unit 'a')) = List.replicate n (unit 'a') := by
  induction n with
  | zero => rfl
  | succ n ih =>
    cases n with
    | zero => decide
    | succ n =>
      rw [List.replicate_succ] at ih ⊢
      rw [List.replicate_succ, quoteBody, ih]
      rfl

theorem quote_row (n : Nat) : (quote (List.replicate n (unit 'a'))).length = n + 2 := by
  rw [quote, quoteBody_row, List.length_append, List.length_cons, List.length_replicate, List.length_singleton]

section Pair

variable (a b : Str)

/-- A batch of two messages of one seq. -/
def batchOf : RaftInboxBatch :=
  ⟨[⟨some 5, js "#general", a, [], false⟩, ⟨some 5, js "#general", b, [], false⟩], false, none, false⟩

theorem notes_one : notesOf (batchOf a b) none false 1 true = [moreLeft 1, MORE_NOTE] := by
  have hqueued : (batchOf a b).queued.length = 2 := rfl
  have hmore : (batchOf a b).hasMoreAt 1 = true := rfl
  unfold notesOf
  rw [hqueued, hmore]
  simp

theorem result_one : resultOf id (fun s _ => s) (batchOf a b) [] none false 1 true =
    .obj [(js "messages", .arr [.str a]), (js "hasMore", .bool true),
      (js "note", .str (join (js " ") [moreLeft 1, MORE_NOTE])), (js "status", .ofString "messages")] := by
  unfold resultOf
  rw [notes_one]
  rfl

theorem result_two : resultOf id (fun s _ => s) (batchOf a b) [] none false 2 true =
    .obj [(js "messages", .arr [.str a, .str b]), (js "hasMore", .bool false), (js "status", .ofString "messages")] := by
  unfold resultOf
  rfl

theorem fits_one (h : (quote a).length ≤ 3000) :
    fits (resultOf id (fun s _ => s) (batchOf a b) [] none false 1 true) = true := by
  have hmore : moreLeft 1 = js "1 more message was" ++
      js " left unacknowledged so this result is not cut; they come first on your next call." := by
    rw [moreLeft, if_pos rfl]
    exact js_append ..
  have hnote : (quote (join (js " ") [moreLeft 1, MORE_NOTE])).length < 500 := by
    rw [hmore, MORE_NOTE, js_append, js_ofList, js_ofList, js_ofList, js_ofList]
    decide +kernel
  have hkeys : (quote (js "messages")).length + (quote (js "hasMore")).length + (js "true").length + (quote (js "note")).length +
      (quote (js "status")).length + (Json.ofString "messages").stringify.length < 100 := by
    decide
  rw [result_one]
  refine decide_eq_true ?_
  simp only [Json.stringify, Json.stringifyItems, Json.stringifyFields, List.length_append, List.length_cons, List.length_nil,
    join, PARK_BYTES] at hnote ⊢
  omega

theorem not_fits_two (h : 4096 ≤ (quote a).length + (quote b).length) :
    fits (resultOf id (fun s _ => s) (batchOf a b) [] none false 2 true) = false := by
  rw [result_two]
  refine decide_eq_false ?_
  simp only [Json.stringify, Json.stringifyItems, Json.stringifyFields, List.length_append, List.length_cons, List.length_nil,
    join, PARK_BYTES]
  omega

theorem pair_given (h : (quote a).length ≤ 3000) (hb : 4096 ≤ (quote a).length + (quote b).length) :
    handOver id (fun s _ => s) (batchOf a b) [] none false = pick id (fun s _ => s) (batchOf a b) [] none false 1 true := by
  unfold handOver
  dsimp only
  have hn : (batchOf a b).queued.length = 2 := rfl
  have hl : (batchOf a b).lowest = 1 := rfl
  rw [hn, hl, if_neg (by rintro (h | h) <;> cases h), largestFitting, if_neg (by omega), not_fits_two a b hb]
  rw [if_neg Bool.false_ne_true, largestFitting, if_neg (by omega), fits_one a b h, if_pos rfl]

end Pair

theorem equal_given : (handOver id (fun s _ => s) ⟨[row 5 2100, row 5 2101], false, none, false⟩ [] none false).shown = [row 5 2100] ∧
    (handOver id (fun s _ => s) ⟨[row 5 2100, row 5 2101], false, none, false⟩ [] none false).cursor = some 4 := by
  have ha := quote_row 2100
  have hb := quote_row 2101
  have hgiven := pair_given (List.replicate 2100 (unit 'a')) (List.replicate 2101 (unit 'a')) (by omega) (by omega)
  have hrows : batchOf (List.replicate 2100 (unit 'a')) (List.replicate 2101 (unit 'a')) =
    ⟨[row 5 2100, row 5 2101], false, none, false⟩ := rfl
  rw [hrows] at hgiven
  rw [hgiven]
  exact ⟨rfl, rfl⟩

/-- The mailbox the two rows hold. -/
structure Stalled (w : Mailbox) : Prop where
  pending : w.pending = [row 5 2100, row 5 2101]
  since : w.since = none ∨ w.since = some 4
  shown : row 5 2101 ∉ w.shown

/-- A pull of two rows of which the first alone is given, the cursor kept below both. -/
theorem pull_stalls {w : Mailbox} {a b : RaftMessage} (hleft : w.left = [a, b]) (hpending : w.pending = [a, b])
    (hsince : w.since = none ∨ w.since = some 4) (hshown : b ∉ w.shown) (hne : b ≠ a)
    (hgiven : (handOver id (fun s _ => s) ⟨[a, b], false, none, false⟩ [] none false).shown = [a])
    (hcursor : (handOver id (fun s _ => s) ⟨[a, b], false, none, false⟩ [] none false).cursor = some 4) :
    (w.step id (fun s _ => s) (pullOf [a, b])).2.pending = [a, b] ∧
      ((w.step id (fun s _ => s) (pullOf [a, b])).2.since = none ∨
        (w.step id (fun s _ => s) (pullOf [a, b])).2.since = some 4) ∧
      b ∉ (w.step id (fun s _ => s) (pullOf [a, b])).2.shown := by
  unfold Mailbox.step pullOf Pull.given Pull.batch
  dsimp only
  split
  · rw [if_pos rfl, if_pos rfl]
    have hnone : ¬(((handOver id (fun s _ => s) ⟨[a, b], false, none, false⟩ [] none false).result.field?
        (js "hasMore") = some (.bool true)) ∧ (none : Option (List Str)).isSome = true) := fun h => by cases h.2
    rw [if_neg hnone, hgiven, hcursor]
    refine ⟨hleft, .inr rfl, fun hm => ?_⟩
    rcases List.mem_append.1 hm with hm | hm
    · exact hshown hm
    · exact hne (List.mem_singleton.1 hm)
  · exact ⟨hpending, hsince, hshown⟩

theorem stalled_pull {w : Mailbox} (h : Stalled w) :
    Stalled (w.step id (fun s _ => s) (pullOf [row 5 2100, row 5 2101])).2 := by
  have hleft : w.left = [row 5 2100, row 5 2101] := by
    unfold Mailbox.left
    rw [h.pending]
    rcases h.since with hs | hs <;> rw [hs] <;> rfl
  have hne : row 5 2101 ≠ row 5 2100 := by
    intro heq
    have hlen : (row 5 2101).text.length = (row 5 2100).text.length := by rw [heq]
    rw [row_length, row_length] at hlen
    omega
  obtain ⟨hpending, hsince, hshown⟩ := pull_stalls hleft h.pending h.since h.shown hne equal_given.1 equal_given.2
  exact ⟨hpending, hsince, hshown⟩

/-- Two rows of one seq, too long together: however often the inbox is read, the second is never shown. -/
theorem equal_seqs_stall :
    (¬∃ n : Nat, row 5 2101 ∈ (final (Mailbox.step id fun s _ => s) ([.arrived (row 5 2100), .arrived (row 5 2101)] ++
      List.replicate n (pullOf [row 5 2100, row 5 2101])) Mailbox.empty).shown) ∧
    ¬∃ n : Nat, row 5 2101 ∉ (final (Mailbox.step id fun s _ => s) ([.arrived (row 5 2100), .arrived (row 5 2101)] ++
      List.replicate n (pullOf [row 5 2100, row 5 2101])) Mailbox.empty).pending := by
  have hstart : Stalled (final (Mailbox.step id fun s _ => s) [.arrived (row 5 2100), .arrived (row 5 2101)] Mailbox.empty) :=
    ⟨rfl, .inl rfl, List.not_mem_nil⟩
  have hkeep (e : Event) (w : Mailbox) (h : Stalled w) (he : e = pullOf [row 5 2100, row 5 2101]) :
      Stalled (w.step id (fun s _ => s) e).2 := by
    subst he
    exact stalled_pull h
  have hend (n : Nat) : Stalled (final (Mailbox.step id fun s _ => s) ([.arrived (row 5 2100), .arrived (row 5 2101)] ++
      List.replicate n (pullOf [row 5 2100, row 5 2101])) Mailbox.empty) := by
    rw [final_append]
    exact final_permitted hstart hkeep fun e he => List.eq_of_mem_replicate he
  refine ⟨fun ⟨n, hn⟩ => (hend n).shown hn, fun ⟨n, hn⟩ => hn ?_⟩
  rw [(hend n).pending]
  exact List.mem_cons_of_mem _ List.mem_cons_self

end Equal

end Antiproton.Raft
