import Mathlib.Data.List.Pairwise
import Antiproton.Inbound.Pass

/-!
# Antiproton.Inbound.Sound

What holds of an object's pushes at every instant, and what keeps it.

* `Sound`: the queue holds the pushes without an end, the records of the last week are the pushes with one, and what the
  engine took is behind the head.
* `settle_sound`: a push that leaves the queue. `queue_sound`, `wake_sound`: one that is accepted.
* `seenBefore_iff`, `rate_room`: what the look-up by key and the rate find is what holds of the pushes.
-/

namespace Antiproton.Inbound

open Js

/-! ## What is counted -/

section Counting

theorem countP_settle {l : List Push} {n : Nat} (hn : (l.filterMap (·.seq)).Nodup) {p : Push} (hp : p ∈ l)
    (hseq : p.seq = some n) (f : Push → Push) (Q : Push → Bool) :
    (l.map fun p => if p.seq = some n then f p else p).countP Q + (Q p).toNat = l.countP Q + (Q (f p)).toNat := by
  induction l with
  | nil => cases hp
  | cons x l ih =>
    have hother : ∀ y ∈ l, y.seq = some n → x.seq ≠ some n := by
      intro y hy hyn hxn
      rw [List.filterMap_cons, hxn] at hn
      exact (List.nodup_cons.1 hn).1 (List.mem_filterMap.2 ⟨y, hy, hyn⟩)
    have hrest : (l.filterMap (·.seq)).Nodup := by
      rw [List.filterMap_cons] at hn
      split at hn
      · exact hn
      · exact (List.nodup_cons.1 hn).2
    rw [List.map_cons, List.countP_cons, List.countP_cons]
    rcases List.mem_cons.1 hp with rfl | hp
    · have hsame : l.map (fun p => if p.seq = some n then f p else p) = l :=
        (List.map_congr_left fun y hy => if_neg fun hyn => hother y hy hyn hseq).trans (List.map_id _)
      rw [hsame, if_pos hseq]
      cases Q p <;> cases Q (f p) <;> simp
    · have hx := hother p hp hseq
      have hcount := ih hrest hp
      rw [if_neg hx]
      omega

theorem countP_le_add {A : Type} {p q r : A → Bool} {l : List A} (h : ∀ x ∈ l, p x = true → q x = true ∨ r x = true) :
    l.countP p ≤ l.countP q + l.countP r := by
  induction l with
  | nil => exact Nat.zero_le _
  | cons x l ih =>
    have hrest := ih fun y hy => h y (List.mem_cons_of_mem _ hy)
    have hx := h x List.mem_cons_self
    rw [List.countP_cons, List.countP_cons, List.countP_cons]
    cases hp : p x with
    | false =>
      rw [if_neg Bool.false_ne_true]
      omega
    | true =>
      rcases hx hp with hq | hr
      · rw [if_pos rfl, if_pos hq]
        omega
      · rw [if_pos rfl, if_pos hr]
        omega

/-- A record older than a week counts for nothing that is asked of the last one. -/
theorem countP_record {e : InboundEvent} {t : Tables} {P : InboundEvent → Bool}
    (hP : ∀ r, P r = true → e.receivedAt - INBOUND_KEEP_MS ≤ r.receivedAt) :
    (recordInbound e t).events.countP P = t.events.countP P + (P e).toNat := by
  have hkept : (Table.delete (fun r => decide (r.receivedAt < e.receivedAt - INBOUND_KEEP_MS)) t.events).countP P =
      t.events.countP P := by
    unfold Table.delete
    rw [List.countP_filter]
    refine List.countP_congr fun r _ => ?_
    simp only [Bool.and_eq_true, Bool.not_eq_true', decide_eq_false_iff_not, not_lt, and_iff_left_iff_imp]
    exact hP r
  unfold recordInbound
  rw [List.countP_append, hkept, List.countP_singleton]
  cases P e <;> rfl

end Counting

/-! ## What holds of an object -/

def Push.taken (p : Push) : Bool := p.ends.any (·.taken)

def Push.ignored (p : Push) : Bool := p.ends.any (·.outcome == .ignored)

/-- A push and its row, as far as they agree. -/
abbrev Card := Nat × String × Option DedupeKey × Int

def PendingInbound.card (r : PendingInbound) : Card := (r.seq, r.hookId, some r.dedupeKey, r.receivedAt)

def Push.card (p : Push) : Card := (p.seq.getD 0, p.hookId, p.key, p.at_)

/-- A final record is of its push, and says how it ended. -/
structure Final (p : Push) (e : InboundEvent) : Prop where
  hookId : e.hookId = p.hookId
  key : e.dedupeKey = p.key
  at_ : e.receivedAt = p.at_
  outcome : e.outcome = .delivered ∨ e.outcome = .failed ∨ e.outcome = .ignored
  counts : e.outcome ≠ .ignored → e.taken = true

/-- A hook's pushes that arrived in the minute from an instant on and were not given up as ignored. -/
def inMinute (hookId : String) (start : Int) (p : Push) : Bool :=
  p.hookId == hookId && decide (start ≤ p.at_ ∧ p.at_ < start + 60000) && !p.ignored

structure Sound (w : World) : Prop where
  sorted : w.tables.pending.Pairwise fun r r' => r.seq < r'.seq
  below : ∀ r ∈ w.tables.pending, r.seq < w.tables.nextSeq
  own : ∀ r ∈ w.tables.pending, ∀ n, r.dedupeKey = .own n → n < w.tables.nextSeq
  past : ∀ p ∈ w.pushes, p.at_ ≤ w.clock
  queued : w.tables.pending.map (·.card) = (w.pushes.filter (·.ends = [])).map (·.card)
  open_ : ∀ p ∈ w.pushes, p.ends = [] → p.seq.isSome
  seqs : (w.pushes.filterMap (·.seq)).Pairwise (· < ·)
  numbered : ∀ n ∈ w.pushes.filterMap (·.seq), n < w.tables.nextSeq
  ends : ∀ p ∈ w.pushes, p.ends = [] ∨ ∃ e, p.ends = [e] ∧ Final p e
  records : ∀ q : String → Option DedupeKey → Int → Bool,
    (∀ hook key at_, q hook key at_ = true → w.clock - INBOUND_KEEP_MS ≤ at_) →
      w.tables.events.countP (fun e => e.taken && q e.hookId e.dedupeKey e.receivedAt) =
        w.pushes.countP fun p => p.taken && q p.hookId p.key p.at_
  engineSorted : w.engine.Pairwise (· < ·)
  engineBelow : ∀ n ∈ w.engine, n < w.tables.nextSeq
  engine : ∀ n ∈ w.engine, ∀ r ∈ w.tables.pending, n < r.seq ∨ n = r.seq ∧ r.posting = true
  posted : ∀ n ∈ w.engine, n ∈ w.pushes.filterMap (·.seq)
  rate : ∀ hookId start, w.pushes.countP (inMinute hookId start) ≤ INBOUND_PER_MINUTE

theorem sound_empty : Sound World.empty where
  sorted := .nil
  below _ h := nomatch h
  own _ h := nomatch h
  past _ h := nomatch h
  queued := rfl
  open_ _ h := nomatch h
  seqs := .nil
  numbered _ h := nomatch h
  ends _ h := nomatch h
  records _ _ := rfl
  engineSorted := .nil
  engineBelow _ h := nomatch h
  engine _ h := nomatch h
  posted _ h := nomatch h
  rate _ _ := Nat.zero_le _

section Settle

variable {w : World} {row : PendingInbound}

theorem Sound.nodup (h : Sound w) : (w.pushes.filterMap (·.seq)).Nodup := h.seqs.imp fun hlt => Nat.ne_of_lt hlt

/-- The push of a queued row. -/
theorem push_of_row (h : Sound w) {r : PendingInbound} (hr : r ∈ w.tables.pending) :
    ∃ p ∈ w.pushes, p.ends = [] ∧ p.seq = some r.seq ∧ p.card = r.card := by
  have hcard : r.card ∈ (w.pushes.filter (·.ends = [])).map (·.card) := h.queued ▸ List.mem_map.2 ⟨r, hr, rfl⟩
  obtain ⟨p, hp, heq⟩ := List.mem_map.1 hcard
  obtain ⟨hp, hopen⟩ := List.mem_filter.1 hp
  have hopen' : p.ends = [] := of_decide_eq_true hopen
  obtain ⟨n, hn⟩ := Option.isSome_iff_exists.1 (h.open_ p hp hopen')
  refine ⟨p, hp, hopen', ?_, heq⟩
  have hseq : p.seq.getD 0 = r.seq := congrArg Prod.fst heq
  rw [hn] at hseq ⊢
  exact congrArg some hseq

theorem row_of_push (h : Sound w) {p : Push} (hp : p ∈ w.pushes) (hopen : p.ends = []) :
    ∃ r ∈ w.tables.pending, r.card = p.card := by
  have hcard : p.card ∈ w.tables.pending.map (·.card) := by
    rw [h.queued]
    exact List.mem_map.2 ⟨p, List.mem_filter.2 ⟨hp, decide_eq_true hopen⟩, rfl⟩
  exact List.mem_map.1 hcard

/-- A number is of one push. -/
theorem push_inj (h : Sound w) {p p' : Push} (hp : p ∈ w.pushes) (hp' : p' ∈ w.pushes) {n : Nat} (hn : p.seq = some n)
    (hn' : p'.seq = some n) : p = p' := by
  have hpair : w.pushes.Pairwise fun p p' => p.seq = some n → p'.seq ≠ some n :=
    (List.pairwise_filterMap.1 h.seqs).imp fun hlt hseq hseq' => Nat.lt_irrefl n (hlt n hseq n hseq')
  by_contra hne
  have : Std.Symm fun p p' : Push => p.seq = some n → p'.seq ≠ some n := ⟨fun _ _ h h' h'' => h h'' h'⟩
  exact hpair.forall hp hp' hne hn hn'

theorem card_eq {p : Push} (hcard : row.card = p.card) :
    row.hookId = p.hookId ∧ some row.dedupeKey = p.key ∧ row.receivedAt = p.at_ := by
  obtain ⟨-, hhook, hkey, hat⟩ : row.seq = p.seq.getD 0 ∧ row.hookId = p.hookId ∧ some row.dedupeKey = p.key ∧
      row.receivedAt = p.at_ := by
    simpa only [PendingInbound.card, Push.card, Prod.mk.injEq] using hcard
  exact ⟨hhook, hkey, hat⟩

theorem final_of_row {p : Push} (hcard : row.card = p.card) {outcome : InboundOutcome}
    (houtcome : outcome = .delivered ∨ outcome = .failed ∨ outcome = .ignored) (reason : Option Str) :
    Final p (finalRecord row outcome reason) := by
  obtain ⟨hhook, hkey, hat⟩ := card_eq hcard
  refine ⟨hhook, hkey, hat, houtcome, fun hnot => ?_⟩
  rcases houtcome with rfl | rfl | rfl
  · rfl
  · rfl
  · exact absurd rfl hnot

/-- The pushes with one more ended. -/
def ended (n : Nat) (e : InboundEvent) (p : Push) : Push :=
  if p.seq = some n then { p with ends := p.ends ++ [e] } else p

theorem ended_filter (n : Nat) (e : InboundEvent) {l : List Push} (hl : ∀ p ∈ l, p.ends = [] → p.seq.isSome) :
    ((l.map (ended n e)).filter (·.ends = [])).map (·.card) =
      ((l.filter (·.ends = [])).map (·.card)).filter fun c => c.1 != n := by
  induction l with
  | nil => rfl
  | cons p l ih =>
    have hrest := ih fun q hq => hl q (List.mem_cons_of_mem _ hq)
    have hp := hl p List.mem_cons_self
    rw [List.map_cons, List.filter_cons, List.filter_cons, ended]
    by_cases hs : p.seq = some n
    · rw [if_pos hs]
      have hno : ¬ (p.ends ++ [e] = []) := List.append_ne_nil_of_right_ne_nil _ (List.cons_ne_nil _ _)
      rw [if_neg (by simp), hrest]
      by_cases ho : p.ends = []
      · have hcard : (p.card.1 != n) = false := by simp [Push.card, hs]
        rw [if_pos (by simpa using ho), List.map_cons, List.filter_cons, hcard]
        rfl
      · rw [if_neg (by simpa using ho)]
    · rw [if_neg hs]
      by_cases ho : p.ends = []
      · obtain ⟨m, hm⟩ := Option.isSome_iff_exists.1 (hp ho)
        have hcard : (p.card.1 != n) = true := by
          rw [hm] at hs
          simpa [Push.card, hm] using hs
        rw [if_pos (by simpa using ho), List.map_cons, hrest, if_pos (by simpa using ho), List.map_cons,
          List.filter_cons, hcard]
        rfl
      · rw [if_neg (by simpa using ho), if_neg (by simpa using ho), hrest]

theorem ended_seq (n : Nat) (e : InboundEvent) (p : Push) : (ended n e p).seq = p.seq := by
  unfold ended
  split <;> rfl

theorem ended_at (n : Nat) (e : InboundEvent) (p : Push) : (ended n e p).at_ = p.at_ := by
  unfold ended
  split <;> rfl

theorem ended_seqs (n : Nat) (e : InboundEvent) (l : List Push) :
    (l.map (ended n e)).filterMap (·.seq) = l.filterMap (·.seq) := by
  rw [List.filterMap_map]
  exact List.filterMap_congr fun p _ => ended_seq n e p

theorem settle_pushes (row : PendingInbound) (outcome : InboundOutcome) (reason : Option Str) (w : World) :
    (settle row outcome reason w).pushes = w.pushes.map (ended row.seq (finalRecord row outcome reason)) := rfl

theorem settle_pending (row : PendingInbound) (outcome : InboundOutcome) (reason : Option Str) (w : World) :
    (settle row outcome reason w).tables.pending = Table.delete (·.seq == row.seq) w.tables.pending := rfl

theorem mem_settle {r : PendingInbound} {outcome : InboundOutcome} {reason : Option Str} :
    r ∈ (settle row outcome reason w).tables.pending ↔ r ∈ w.tables.pending ∧ r.seq ≠ row.seq := by
  rw [settle_pending, Table.delete, List.mem_filter]
  simp

theorem mem_settle_pushes {q : Push} {outcome : InboundOutcome} {reason : Option Str}
    (hq : q ∈ (settle row outcome reason w).pushes) :
    ∃ p ∈ w.pushes, ended row.seq (finalRecord row outcome reason) p = q := by
  rw [settle_pushes] at hq
  exact List.mem_map.1 hq

/-- A push leaves the queue. -/
theorem settle_sound (h : Sound w) {r : PendingInbound} (hr : r ∈ w.tables.pending) (hcard : row.card = r.card)
    {outcome : InboundOutcome} (houtcome : outcome = .delivered ∨ outcome = .failed ∨ outcome = .ignored)
    (reason : Option Str) : Sound (settle row outcome reason w) := by
  obtain ⟨p, hp, hopen, hpseq, hpcard⟩ := push_of_row h hr
  have hrow : row.seq = r.seq := congrArg Prod.fst hcard
  rw [← hrow] at hpseq
  have hfinal := final_of_row (hcard.trans hpcard.symm) houtcome reason
  have hended : ended row.seq (finalRecord row outcome reason) p = { p with ends := [finalRecord row outcome reason] } := by
    rw [ended, if_pos hpseq, hopen, List.nil_append]
  have hcount : ∀ Q : Push → Bool, (settle row outcome reason w).pushes.countP Q + (Q p).toNat =
      w.pushes.countP Q + (Q { p with ends := [finalRecord row outcome reason] }).toNat := by
    intro Q
    have hone := countP_settle h.nodup hp hpseq (fun p => { p with ends := p.ends ++ [finalRecord row outcome reason] }) Q
    rw [hopen] at hone
    exact hone
  have htaken : p.taken = false := by rw [Push.taken, hopen]; rfl
  have hignored : p.ignored = false := by rw [Push.ignored, hopen]; rfl
  refine
    { sorted := h.sorted.filter _
      below := fun r hr => h.below r (mem_settle.1 hr).1
      own := fun r hr => h.own r (mem_settle.1 hr).1
      past := ?past
      queued := ?queued
      open_ := ?open_
      seqs := ?seqs
      numbered := ?numbered
      ends := ?ends
      records := ?records
      engineSorted := h.engineSorted
      engineBelow := h.engineBelow
      engine := fun n hn r hr => h.engine n hn r (mem_settle.1 hr).1
      posted := ?posted
      rate := ?rate }
  case past =>
    intro q' hq'
    obtain ⟨q, hq, rfl⟩ := mem_settle_pushes hq'
    rw [ended_at]
    exact h.past q hq
  case queued =>
    rw [settle_pushes, ended_filter _ _ h.open_, ← h.queued, settle_pending, Table.delete, List.filter_map]
    rfl
  case open_ =>
    intro q' hq' hopen
    obtain ⟨q, hq, rfl⟩ := mem_settle_pushes hq'
    rw [ended_seq]
    refine h.open_ q hq ?_
    unfold ended at hopen
    split at hopen
    · exact absurd hopen (List.append_ne_nil_of_right_ne_nil _ (List.cons_ne_nil _ _))
    · exact hopen
  case seqs =>
    rw [settle_pushes, ended_seqs]
    exact h.seqs
  case numbered =>
    rw [settle_pushes, ended_seqs]
    exact h.numbered
  case posted =>
    rw [settle_pushes, ended_seqs]
    exact h.posted
  case ends =>
    intro q' hq'
    obtain ⟨q, hq, rfl⟩ := mem_settle_pushes hq'
    by_cases hseq : q.seq = some row.seq
    · rw [push_inj h hq hp hseq hpseq, hended]
      exact .inr ⟨_, rfl, hfinal.hookId, hfinal.key, hfinal.at_, hfinal.outcome, hfinal.counts⟩
    · rw [ended, if_neg hseq]
      exact h.ends q hq
  case records =>
    intro q hq
    have hbound : ∀ e : InboundEvent, (e.taken && q e.hookId e.dedupeKey e.receivedAt) = true →
        (finalRecord row outcome reason).receivedAt - INBOUND_KEEP_MS ≤ e.receivedAt := by
      intro e he
      have hlate := hq _ _ _ (Bool.and_eq_true_iff.1 he).2
      have hpast := h.past p hp
      have hat : (finalRecord row outcome reason).receivedAt = p.at_ := hfinal.at_
      simp only [settle] at hlate
      omega
    have hleft := countP_record (t := { w.tables with pending := Table.delete (·.seq == row.seq) w.tables.pending }) hbound
    have hright := hcount fun p => p.taken && q p.hookId p.key p.at_
    have hsame : (({ p with ends := [finalRecord row outcome reason] } : Push).taken) = (finalRecord row outcome reason).taken := by
      rw [Push.taken, List.any_cons, List.any_nil, Bool.or_false]
    rw [htaken, Bool.false_and, hsame] at hright
    rw [hfinal.hookId, hfinal.key, hfinal.at_] at hleft
    calc (settle row outcome reason w).tables.events.countP (fun e => e.taken && q e.hookId e.dedupeKey e.receivedAt)
        = w.tables.events.countP (fun e => e.taken && q e.hookId e.dedupeKey e.receivedAt) +
            ((finalRecord row outcome reason).taken && q p.hookId p.key p.at_).toNat := hleft
      _ = w.pushes.countP (fun p => p.taken && q p.hookId p.key p.at_) +
            ((finalRecord row outcome reason).taken && q p.hookId p.key p.at_).toNat := by rw [h.records q hq]
      _ = (settle row outcome reason w).pushes.countP fun p => p.taken && q p.hookId p.key p.at_ := hright.symm
  case rate =>
    intro hookId start
    have hnew := hcount (inMinute hookId start)
    have hle : (inMinute hookId start { p with ends := [finalRecord row outcome reason] }).toNat ≤
        (inMinute hookId start p).toNat := by
      unfold inMinute
      rw [hignored]
      cases Push.ignored { p with ends := [finalRecord row outcome reason] } <;> simp
    have hold := h.rate hookId start
    omega

end Settle

/-! ## A push that arrives -/

section Receive

variable {w : World}

/-- Accepted, and ended delivered or failed. -/
def Push.handled (p : Push) : Bool := p.ends.any fun e => e.outcome == .delivered || e.outcome == .failed

/-- A push of the hook and key is queued, or ended delivered or failed within a day of its arrival. -/
def Held (w : World) (hookId : String) (key : Str) (now : Int) : Prop :=
  ∃ p ∈ w.pushes, p.hookId = hookId ∧ p.key = some (.named key) ∧
    (p.ends = [] ∨ p.handled = true ∧ now - INBOUND_DEDUPE_MS < p.at_)

theorem taken_of_final {p : Push} {e : InboundEvent} (hends : p.ends = [e]) (hfinal : Final p e) :
    p.taken = true ↔ p.handled = true := by
  rw [Push.taken, Push.handled, hends, List.any_cons, List.any_nil, Bool.or_false, List.any_cons, List.any_nil, Bool.or_false]
  rcases hfinal.outcome with hout | hout | hout
  · simp [hfinal.counts (by simp [hout]), hout]
  · simp [hfinal.counts (by simp [hout]), hout]
  · simp [InboundEvent.taken, hout]

theorem taken_iff_handled (h : Sound w) {p : Push} (hp : p ∈ w.pushes) : p.taken = true ↔ p.handled = true := by
  rcases h.ends p hp with hopen | ⟨e, hends, hfinal⟩
  · simp [Push.taken, Push.handled, hopen]
  · exact taken_of_final hends hfinal

/-- The look-up by key finds what holds it. -/
theorem seenBefore_iff (h : Sound w) {age : Nat} (hage : (age : Int) < INBOUND_KEEP_MS - INBOUND_DEDUPE_MS) (hookId : String)
    (key : Str) : seenBefore hookId key (w.clock - age) w.tables = true ↔ Held w hookId key (w.clock - age) := by
  have hrecords := h.records
    (fun hook k at_ => hook == hookId && k == some (.named key) && decide (w.clock - age - INBOUND_DEDUPE_MS < at_)) (by
      intro hook k at_ hq
      have hlate := of_decide_eq_true (Bool.and_eq_true_iff.1 hq).2
      omega)
  have hevents : (∃ e ∈ w.tables.events, e.taken = true ∧ e.hookId = hookId ∧ e.dedupeKey = some (.named key) ∧
      w.clock - age - INBOUND_DEDUPE_MS < e.receivedAt) ↔ ∃ p ∈ w.pushes, p.taken = true ∧ p.hookId = hookId ∧
        p.key = some (.named key) ∧ w.clock - age - INBOUND_DEDUPE_MS < p.at_ := by
    have hpos := congrArg (0 < ·) hrecords
    simpa only [List.countP_pos_iff, Bool.and_eq_true, beq_iff_eq, decide_eq_true_eq, and_assoc, eq_iff_iff] using hpos
  have hseen : seenBefore hookId key (w.clock - age) w.tables = true ↔
      (∃ e ∈ w.tables.events, e.taken = true ∧ e.hookId = hookId ∧ e.dedupeKey = some (.named key) ∧
        w.clock - age - INBOUND_DEDUPE_MS < e.receivedAt) ∨
      ∃ r ∈ w.tables.pending, r.hookId = hookId ∧ r.dedupeKey = .named key := by
    simp only [seenBefore, Bool.or_eq_true, List.any_eq_true, Bool.and_eq_true, beq_iff_eq, decide_eq_true_eq]
    refine or_congr (exists_congr fun e => and_congr_right fun _ => ?_) Iff.rfl
    constructor
    · rintro ⟨⟨⟨hhook, hkey⟩, htaken⟩, hlate⟩
      exact ⟨htaken, hhook, hkey, hlate⟩
    · rintro ⟨htaken, hhook, hkey, hlate⟩
      exact ⟨⟨⟨hhook, hkey⟩, htaken⟩, hlate⟩
  rw [hseen, hevents]
  constructor
  · rintro (⟨p, hp, htaken, hhook, hkey, hlate⟩ | ⟨r, hr, hhook, hkey⟩)
    · exact ⟨p, hp, hhook, hkey, .inr ⟨(taken_iff_handled h hp).1 htaken, hlate⟩⟩
    · obtain ⟨p, hp, hopen, -, hcard⟩ := push_of_row h hr
      obtain ⟨hhook', hkey', -⟩ := card_eq hcard.symm
      exact ⟨p, hp, hhook'.symm.trans hhook, hkey'.symm.trans (congrArg some hkey), .inl hopen⟩
  · rintro ⟨p, hp, hhook, hkey, hopen | ⟨hhandled, hlate⟩⟩
    · obtain ⟨r, hr, hcard⟩ := row_of_push h hp hopen
      obtain ⟨hhook', hkey', -⟩ := card_eq hcard
      exact .inr ⟨r, hr, hhook'.trans hhook, Option.some.inj (hkey'.trans hkey)⟩
    · exact .inl ⟨p, hp, (taken_iff_handled h hp).2 hhandled, hhook, hkey, hlate⟩

/-- What the queue counts of a hook, its pushes without an end. -/
theorem countP_pending (h : Sound w) (q : String → Int → Bool) :
    w.tables.pending.countP (fun r => q r.hookId r.receivedAt) =
      w.pushes.countP fun p => decide (p.ends = []) && q p.hookId p.at_ := by
  have hcards := congrArg (List.countP fun c : Card => q c.2.1 c.2.2.2) h.queued
  rw [List.countP_map, List.countP_map, List.countP_filter] at hcards
  refine hcards.trans (List.countP_congr fun p _ => ?_)
  rw [Bool.and_comm]
  exact Iff.rfl

/-- Where the rate lets a push in, its minute has room. -/
theorem rate_room (h : Sound w) {age : Nat} (hage : (age : Int) < INBOUND_KEEP_MS - INBOUND_DEDUPE_MS) {hookId : String}
    (hroom : underRate hookId (w.clock - age) w.tables = true) {start : Int} (hstart : w.clock - age < start + 60000) :
    w.pushes.countP (inMinute hookId start) < INBOUND_PER_MINUTE := by
  have hlt := of_decide_eq_true hroom
  rw [counted, List.length_append, List.length_map, List.length_map, ← List.countP_eq_length_filter,
    ← List.countP_eq_length_filter] at hlt
  have hdedupe : (60000 : Int) ≤ INBOUND_DEDUPE_MS := by decide
  have hrecords := h.records (fun hook _ at_ => hook == hookId && decide (w.clock - age - 60000 < at_)) (by
    intro hook k at_ hq
    have hlate := of_decide_eq_true (Bool.and_eq_true_iff.1 hq).2
    omega)
  have hpending := countP_pending h fun hook at_ => hook == hookId && decide (w.clock - age - 60000 < at_)
  have hsame : w.tables.events.countP (fun e => e.hookId == hookId && e.taken && decide (w.clock - age - 60000 < e.receivedAt)) =
      w.tables.events.countP fun e => e.taken && (e.hookId == hookId && decide (w.clock - age - 60000 < e.receivedAt)) := by
    refine List.countP_congr fun e _ => ?_
    rw [Bool.and_comm (e.hookId == hookId), Bool.and_assoc]
  rw [hsame, hrecords, hpending] at hlt
  refine lt_of_le_of_lt (countP_le_add fun p hp hin => ?_) hlt
  obtain ⟨hin, hign⟩ := Bool.and_eq_true_iff.1 hin
  obtain ⟨hhook, hwhen⟩ := Bool.and_eq_true_iff.1 hin
  have hlate : decide (w.clock - age - 60000 < p.at_) = true := by
    have hfrom := (of_decide_eq_true hwhen).1
    exact decide_eq_true (by omega)
  rcases h.ends p hp with hopen | ⟨e, hends, hfinal⟩
  · right
    simp [hopen, hhook, hlate]
  · left
    have hnot : e.outcome ≠ .ignored := by
      rintro hout
      simp [Push.ignored, hends, hout] at hign
    have htaken : p.taken = true := by
      rw [Push.taken, hends, List.any_cons, hfinal.counts hnot, Bool.true_or]
    simp [htaken, hhook, hlate]

theorem tick_sound (h : Sound w) (ms : Nat) : Sound { w with clock := w.clock + ms } :=
  { h with
    past := fun p hp => by
      have hold := h.past p hp
      dsimp only
      omega
    records := fun q hq => h.records q fun hook key at_ hat => by
      have hlate := hq hook key at_ hat
      dsimp only at hlate
      omega }

/-- A push that is refused leaves a record that holds no key. -/
theorem record_sound (h : Sound w) {e : InboundEvent} (htaken : e.taken = false) (hpast : e.receivedAt ≤ w.clock) :
    Sound { w with tables := recordInbound e w.tables } :=
  { h with
    records := fun q hq => by
      have hbound : ∀ r : InboundEvent, (r.taken && q r.hookId r.dedupeKey r.receivedAt) = true →
          e.receivedAt - INBOUND_KEEP_MS ≤ r.receivedAt := by
        intro r hr
        have hlate := hq _ _ _ (Bool.and_eq_true_iff.1 hr).2
        dsimp only at hlate
        omega
      have hcount := countP_record (t := w.tables) hbound
      rw [htaken, Bool.false_and] at hcount
      exact hcount.trans (h.records q hq) }

theorem rate_push (h : Sound w) {p : Push} (hroom : ∀ start, p.at_ < start + 60000 →
    w.pushes.countP (inMinute p.hookId start) < INBOUND_PER_MINUTE) (hookId : String) (start : Int) :
    (w.pushes ++ [p]).countP (inMinute hookId start) ≤ INBOUND_PER_MINUTE := by
  rw [List.countP_append, List.countP_singleton]
  cases hin : inMinute hookId start p with
  | false =>
    rw [if_neg Bool.false_ne_true]
    exact h.rate hookId start
  | true =>
    obtain ⟨hin', -⟩ := Bool.and_eq_true_iff.1 hin
    obtain ⟨hhook, hwhen⟩ := Bool.and_eq_true_iff.1 hin'
    have hlt := hroom start (of_decide_eq_true hwhen).2
    rw [beq_iff_eq.1 hhook] at hlt
    rw [if_pos rfl]
    exact hlt

/-- A push handed to its plugin at once. -/
theorem wake_sound (h : Sound w) {p : Push} {e : InboundEvent} (hseq : p.seq = none) (hends : p.ends = [e]) (hfinal : Final p e)
    (hpast : p.at_ ≤ w.clock) (hroom : ∀ start, p.at_ < start + 60000 →
      w.pushes.countP (inMinute p.hookId start) < INBOUND_PER_MINUTE) :
    Sound { w with tables := recordInbound e w.tables, pushes := w.pushes ++ [p] } := by
  have hseqs : (w.pushes ++ [p]).filterMap (·.seq) = w.pushes.filterMap (·.seq) := by
    rw [List.filterMap_append, List.filterMap_cons, hseq, List.filterMap_nil, List.append_nil]
  refine
    { sorted := h.sorted
      below := h.below
      own := h.own
      past := ?past
      queued := ?queued
      open_ := ?open_
      seqs := hseqs.symm ▸ h.seqs
      numbered := fun n hn => h.numbered n (hseqs ▸ hn)
      ends := ?ends
      records := ?records
      engineSorted := h.engineSorted
      engineBelow := h.engineBelow
      engine := h.engine
      posted := fun n hn => hseqs.symm ▸ h.posted n hn
      rate := rate_push h hroom }
  case past =>
    intro q hq
    rcases List.mem_append.1 hq with hq | hq
    · exact h.past q hq
    · rw [List.mem_singleton.1 hq]
      exact hpast
  case queued =>
    have hnot : decide (p.ends = []) = false := by rw [hends]; rfl
    dsimp only
    rw [List.filter_append, List.filter_cons, hnot, if_neg Bool.false_ne_true, List.filter_nil, List.append_nil]
    exact h.queued
  case open_ =>
    intro q hq hopen
    rcases List.mem_append.1 hq with hq | hq
    · exact h.open_ q hq hopen
    · rw [List.mem_singleton.1 hq, hends] at hopen
      exact absurd hopen (List.cons_ne_nil _ _)
  case ends =>
    intro q hq
    rcases List.mem_append.1 hq with hq | hq
    · exact h.ends q hq
    · rw [List.mem_singleton.1 hq]
      exact .inr ⟨e, hends, hfinal⟩
  case records =>
    intro q hq
    have hbound : ∀ r : InboundEvent, (r.taken && q r.hookId r.dedupeKey r.receivedAt) = true →
        e.receivedAt - INBOUND_KEEP_MS ≤ r.receivedAt := by
      intro r hr
      have hlate := hq _ _ _ (Bool.and_eq_true_iff.1 hr).2
      have hat := hfinal.at_
      dsimp only at hlate
      omega
    have hcount := countP_record (t := w.tables) hbound
    have htaken : p.taken = e.taken := by rw [Push.taken, hends, List.any_cons, List.any_nil, Bool.or_false]
    rw [hfinal.hookId, hfinal.key, hfinal.at_, ← htaken] at hcount
    dsimp only
    rw [hcount, h.records q hq, List.countP_append, List.countP_singleton]
    cases p.taken && q p.hookId p.key p.at_ <;> rfl

/-- A push queued. -/
theorem queue_sound (h : Sound w) {p : Push} {r : PendingInbound} (hseq : p.seq = some w.tables.nextSeq) (hends : p.ends = [])
    (hrow : r.seq = w.tables.nextSeq) (hcard : r.card = p.card)
    (hown : ∀ n, r.dedupeKey = .own n → n < w.tables.nextSeq + 1)
    (hpast : p.at_ ≤ w.clock) (hroom : ∀ start, p.at_ < start + 60000 →
      w.pushes.countP (inMinute p.hookId start) < INBOUND_PER_MINUTE) :
    Sound { w with
      tables := { w.tables with pending := w.tables.pending ++ [r], nextSeq := w.tables.nextSeq + 1 }
      pushes := w.pushes ++ [p] } := by
  have hseqs : (w.pushes ++ [p]).filterMap (·.seq) = w.pushes.filterMap (·.seq) ++ [w.tables.nextSeq] := by
    rw [List.filterMap_append, List.filterMap_cons, hseq, List.filterMap_nil]
  have hnew : ∀ {x : Push} {P : Push → Prop}, x ∈ w.pushes ++ [p] → (∀ x ∈ w.pushes, P x) → P p → P x := by
    intro x P hx hold hp
    rcases List.mem_append.1 hx with hx | hx
    · exact hold x hx
    · exact (List.mem_singleton.1 hx) ▸ hp
  refine
    { sorted := ?sorted
      below := ?below
      own := ?own
      past := fun q hq => hnew hq h.past hpast
      queued := ?queued
      open_ := fun q hq => hnew (P := fun q => q.ends = [] → q.seq.isSome) hq h.open_ fun _ => by rw [hseq]; rfl
      seqs := ?seqs
      numbered := ?numbered
      ends := fun q hq => hnew (P := fun q => q.ends = [] ∨ ∃ e, q.ends = [e] ∧ Final q e) hq h.ends (.inl hends)
      records := ?records
      engineSorted := h.engineSorted
      engineBelow := fun n hn => Nat.lt_succ_of_lt (h.engineBelow n hn)
      engine := ?engine
      posted := fun n hn => hseqs.symm ▸ List.mem_append_left _ (h.posted n hn)
      rate := rate_push h hroom }
  case sorted =>
    refine List.pairwise_append.2 ⟨h.sorted, List.pairwise_singleton _ _, fun x hx y hy => ?_⟩
    rw [List.mem_singleton.1 hy, hrow]
    exact h.below x hx
  case below =>
    intro x hx
    rcases List.mem_append.1 hx with hx | hx
    · exact Nat.lt_succ_of_lt (h.below x hx)
    · rw [List.mem_singleton.1 hx, hrow]
      exact Nat.lt_succ_self _
  case own =>
    intro x hx n hn
    rcases List.mem_append.1 hx with hx | hx
    · exact Nat.lt_succ_of_lt (h.own x hx n hn)
    · rw [List.mem_singleton.1 hx] at hn
      exact hown n hn
  case queued =>
    have hopen : decide (p.ends = []) = true := decide_eq_true hends
    dsimp only
    rw [List.map_append, List.filter_append, List.filter_cons, hopen, if_pos rfl, List.filter_nil, List.map_append,
      h.queued, List.map_singleton, List.map_singleton, hcard]
  case seqs =>
    dsimp only
    rw [hseqs]
    refine List.pairwise_append.2 ⟨h.seqs, List.pairwise_singleton _ _, fun x hx y hy => ?_⟩
    rw [List.mem_singleton.1 hy]
    exact h.numbered x hx
  case numbered =>
    intro n hn
    dsimp only at hn
    rw [hseqs] at hn
    rcases List.mem_append.1 hn with hn | hn
    · exact Nat.lt_succ_of_lt (h.numbered n hn)
    · rw [List.mem_singleton.1 hn]
      exact Nat.lt_succ_self _
  case records =>
    intro q hq
    have hopen : p.taken = false := by rw [Push.taken, hends]; rfl
    dsimp only
    rw [List.countP_append, List.countP_singleton, hopen, Bool.false_and, if_neg Bool.false_ne_true]
    exact h.records q hq
  case engine =>
    intro n hn x hx
    rcases List.mem_append.1 hx with hx | hx
    · exact h.engine n hn x hx
    · rw [List.mem_singleton.1 hx, hrow]
      exact .inl (h.engineBelow n hn)

end Receive

end Antiproton.Inbound
