import Mathlib.Data.Option.Basic
import Antiproton.Trace.TurnTiming

/-!
# Antiproton.Trace.TurnBook

The turns of a conversation as they were, kept beside the record of `Trace/TurnTiming.lean`, and what the trace says of
them.

A turn opens with a message that finds none open and goes on while messages join it. It is over when a run ends, when the
caller abandons it, when it is found stale with none of its messages under way, or when every message of it has failed.

* `Clear`: what a step must find for the record to follow the turns.
* `step_inv`: such a step keeps the record of the turn in flight true, and the trace the row of each ended turn.
* `turns_timed`: so of every run.
-/

namespace Antiproton.TurnTiming

open History

/-! ## Turns -/

/-- The caller's part of a turn: it pauses for the caller's functions, or their results complete the pause. -/
inductive Mark where
  | paused (at_ : Int)
  | resumed (at_ : Int)

structure Turn where
  number : Nat
  inboundAt : Int
  /-- Its messages still being written, and whether one has landed. -/
  flight : List Nat
  landed : Bool
  /-- The first step that drove it. -/
  startAt : Option Int
  marks : List Mark
  /-- How many jobs the conversation had before it. -/
  firstJob : Nat

/-- The pause that is open, and each one before it with what closed it. -/
def pauseStep (s : Option Int × List (Int × Int)) (x : Mark) : Option Int × List (Int × Int) :=
  match s.1, x with
  | none, .paused a => (some a, s.2)
  | some a, .resumed b => (none, s.2 ++ [(a, b)])
  | _, _ => s

def Turn.waits (t : Turn) : Option Int × List (Int × Int) := t.marks.foldl pauseStep (none, [])

/-- Each pause, and the resume or the end that closed it. -/
def Turn.pauses (t : Turn) (replyAt : Int) : List (Int × Int) :=
  t.waits.2 ++ (t.waits.1.map fun a => (a, replyAt)).toList

def lengths (pauses : List (Int × Int)) : Int := (pauses.map fun p => p.2 - p.1).sum

/-- A turn that ended: when, how, the jobs the conversation had before it, and its own. -/
structure Ended where
  turn : Turn
  replyAt : Int
  status : String
  earlier : List ModelJob
  jobs : List ModelJob

structure Book where
  clock : Int
  count : Nat
  now : Option Turn
  /-- The turn each message found open when it looked. -/
  saw : Nat → Option Nat
  ended : List Ended

/-- The turn found is the one open now, and none of its messages is under way. -/
def Book.isOver (b : Book) (m : Nat) (t : Turn) : Bool := (b.saw m == some t.number) && t.flight.isEmpty

def Book.close (replyAt : Int) (status : String) (jobs : List ModelJob) (b : Book) : Book :=
  match b.now with
  | none => b
  | some t =>
    { b with now := none, ended := b.ended ++ [⟨t, replyAt, status, jobs.take t.firstJob, jobs.drop t.firstJob⟩] }

/-- The turn found, if it is the one open, is left by the caller. -/
def Book.abandon (m : Nat) (replyAt : Int) (jobs : List ModelJob) (b : Book) : Book :=
  if b.now.any fun t => b.saw m == some t.number then b.close replyAt "abandoned" jobs else b

/-- The message joins the open turn, or opens one. -/
def Book.joins (m : Nat) (at_ : Int) (jobs : List ModelJob) (b : Book) : Book :=
  match b.now with
  | some t => { b with now := some { t with flight := t.flight ++ [m] } }
  | none => { b with count := b.count + 1, now := some ⟨b.count, at_, [m], false, none, [], jobs.length⟩ }

def Book.inbound (m : Nat) (p : Post) (prior : Bool) (jobs : List ModelJob) (b : Book) : Book :=
  let b := if p.abandoned prior then b.abandon m p.at_ jobs else b
  if p.timed prior then
    let b := if p.stale prior then { b with now := b.now.filter fun t => !b.isOver m t } else b
    b.joins m p.at_ jobs
  else b

def Turn.land (m : Nat) (t : Turn) : Turn :=
  if m ∈ t.flight then { t with flight := t.flight.filter (· ≠ m), landed := true } else t

def Turn.fail (m : Nat) (t : Turn) : Turn := { t with flight := t.flight.filter (· ≠ m) }

/-- A turn none of whose messages landed or will is none. -/
def Turn.isOne (t : Turn) : Bool := t.landed || !t.flight.isEmpty

def Book.step (e : Event) (t : Timing) (b : Book) : Book :=
  let b := { b with clock := e.time.getD b.clock }
  match e with
  | .read m =>
    match t.posts m with
    | .unsent => { b with saw := fun n => if n = m then b.now.map (·.number) else b.saw n }
    | _ => b
  | .inbound m p =>
    match t.posts m with
    | .reading prior => b.inbound m p prior t.jobs
    | _ => b
  | .said m _ =>
    match t.posts m with
    | .writing _ => { b with now := b.now.map (·.land m) }
    | _ => b
  | .notSaid m =>
    match t.posts m with
    | .writing _ => { b with now := (b.now.map (·.fail m)).filter (·.isOne) }
    | _ => b
  | .stepStart at_ => { b with now := b.now.map fun t => { t with startAt := t.startAt.or (some at_) } }
  | .paused at_ => { b with now := b.now.map fun t => { t with marks := t.marks ++ [.paused at_] } }
  | .resumed at_ => { b with now := b.now.map fun t => { t with marks := t.marks ++ [.resumed at_] } }
  | .ended at_ status => b.close at_ status t.jobs
  | .discarded => { b with now := none }
  | .toolRan _ | .jobWritten _ | .jobAnswered .. => b

structure World where
  timing : Timing
  book : Book

def World.new (now : Int) : World := ⟨.empty, ⟨now, 0, none, fun _ => none, []⟩⟩

def step (c : Conversation) (e : Event) (w : World) : Unit × World := ((), ⟨w.timing.step c e, w.book.step e w.timing⟩)

/-! ## What is to hold -/

/-- A row tells a turn that ended. -/
structure Tells (e : Ended) (r : TimingRow) : Prop where
  inboundAt : r.attrs.inboundAt = e.turn.inboundAt
  replyAt : r.at_ = e.replyAt ∧ r.attrs.replyAt = e.replyAt
  status : r.status = e.status ∧ r.verdict = turnVerdict e.status
  clientWaitMs : r.attrs.clientWaitMs = lengths (e.turn.pauses e.replyAt)
  /-- The jobs before it were written before it, and its own ran one after another between its start and its end. -/
  parts : (∀ j ∈ e.earlier, j.created < e.turn.inboundAt) → e.jobs ≠ [] →
    (∃ s, e.turn.startAt = some s ∧ Serial e.replyAt e.jobs s) → r.attrs.parts = some (e.replyAt - e.turn.inboundAt)

/-- The trace holds a row of each turn that ended with a message landed, in their order, and no other. -/
structure Timed (w : World) : Prop where
  rows : List.Forall₂ Tells (w.book.ended.filter (·.turn.landed)) w.timing.trace
  once : (w.book.ended.map (·.turn.number)).Nodup

/-- A message that takes the turn it found for abandoned finds it open still, with a message landed, and one that takes it
for stale finds it open still, with no message under way. -/
def Takes (b : Book) (m : Nat) (p : Post) : Posting → Prop
  | .reading prior =>
    (p.abandoned prior = true → ∀ t ∈ b.now, b.saw m = some t.number ∧ t.landed = true) ∧
      (p.stale prior = true → ∀ t ∈ b.now, b.isOver m t = true)
  | _ => True

/-- A message that opened the turn and fails is the only one of it, and an end finds a message landed. -/
def Ready (w : World) : Event → Prop
  | .inbound m p => Takes w.book m p (w.timing.posts m)
  | .notSaid m => w.timing.posts m = .writing true → ∀ t ∈ w.book.now, t.flight = [m] ∧ t.landed = false
  | .ended .. => ∀ t ∈ w.book.now, t.landed = true
  | _ => True

/-- Time goes on, and the step finds what it must. -/
structure Clear (w : World) (e : Event) : Prop where
  forward : ∀ t ∈ e.time, w.book.clock ≤ t
  ready : Ready w e

/-! ## The record kept -/

/-- The record of the turn in flight is true of it. -/
structure Keeps (clock : Int) (r : TurnRow) (t : Turn) : Prop where
  inboundAt : r.inboundAt = t.inboundAt
  since : t.inboundAt ≤ clock
  startAt : r.startAt = t.startAt
  started : ∀ s ∈ t.startAt, t.inboundAt ≤ s
  pausedAt : r.pausedAt = t.waits.1
  paused : ∀ a ∈ r.pausedAt, a ≤ clock
  clientWaitMs : r.clientWaitMs = lengths t.waits.2

/-- When the conversation's jobs were written. -/
def Timing.made (t : Timing) : List Int := t.jobs.map (·.created)

structure Inv (w : World) : Prop where
  row : Option.Rel (Keeps w.book.clock) w.timing.row w.book.now
  /-- The message that opened the turn is still being written, where none has landed. -/
  told : ∀ t ∈ w.book.now, t.landed = true ∨ ∃ m ∈ t.flight, w.timing.posts m = .writing true
  written : ∀ x ∈ w.timing.made, x ≤ w.book.clock
  sorted : w.timing.made.Pairwise (· ≤ ·)
  own : ∀ t ∈ w.book.now, ∀ x ∈ w.timing.made.drop t.firstJob, t.inboundAt ≤ x
  landed : ∀ e ∈ w.book.ended, e.turn.landed = true
  trace : List.Forall₂ Tells w.book.ended w.timing.trace
  fresh : ∀ t ∈ w.book.now, t.number < w.book.count ∧ ∀ e ∈ w.book.ended, e.turn.number ≠ t.number
  known : ∀ e ∈ w.book.ended, e.turn.number < w.book.count
  once : (w.book.ended.map (·.turn.number)).Nodup

section Record

variable {clock k : Int} {r : TurnRow} {t : Turn} {w : World} {c : Conversation} {m : Nat}

theorem waits_snoc (t : Turn) (x : Mark) : Turn.waits { t with marks := t.marks ++ [x] } = pauseStep t.waits x := by
  unfold Turn.waits
  rw [List.foldl_append]
  rfl

theorem waits_paused (t : Turn) (a : Int) :
    Turn.waits { t with marks := t.marks ++ [.paused a] } = (t.waits.1.or (some a), t.waits.2) := by
  rw [waits_snoc]
  obtain ⟨since, done⟩ := t.waits
  cases since with
  | none => rfl
  | some b => rfl

theorem waits_resumed (t : Turn) (b : Int) :
    Turn.waits { t with marks := t.marks ++ [.resumed b] } =
      (none, t.waits.2 ++ (t.waits.1.map fun a => (a, b)).toList) := by
  rw [waits_snoc]
  obtain ⟨since, done⟩ := t.waits
  cases since with
  | none => exact congrArg _ (List.append_nil done).symm
  | some a => rfl

theorem lengths_append (l l' : List (Int × Int)) : lengths (l ++ l') = lengths l + lengths l' := by
  rw [lengths, List.map_append, List.sum_append]
  rfl

theorem Keeps.later (h : Keeps clock r t) (hk : clock ≤ k) : Keeps k r t where
  inboundAt := h.inboundAt
  since := h.since.trans hk
  startAt := h.startAt
  started := h.started
  pausedAt := h.pausedAt
  paused := fun a ha => (h.paused a ha).trans hk
  clientWaitMs := h.clientWaitMs

theorem keeps_start (h : Keeps clock r t) :
    Keeps clock { r with startAt := r.startAt.or (some clock) } { t with startAt := t.startAt.or (some clock) } where
  inboundAt := h.inboundAt
  since := h.since
  startAt := by rw [h.startAt]
  started := by
    intro s hs
    have hs' : t.startAt.or (some clock) = some s := hs
    cases ht : t.startAt with
    | none =>
      rw [ht] at hs'
      cases hs'
      exact h.since
    | some s' =>
      rw [ht] at hs'
      cases hs'
      exact h.started s ht
  pausedAt := h.pausedAt
  paused := h.paused
  clientWaitMs := h.clientWaitMs

theorem keeps_pause (h : Keeps clock r t) :
    Keeps clock { r with pausedAt := r.pausedAt.or (some clock) } { t with marks := t.marks ++ [.paused clock] } where
  inboundAt := h.inboundAt
  since := h.since
  startAt := h.startAt
  started := h.started
  pausedAt := by rw [waits_paused, h.pausedAt]
  paused := by
    intro a ha
    have ha' : r.pausedAt.or (some clock) = some a := ha
    cases hr : r.pausedAt with
    | none =>
      rw [hr] at ha'
      cases ha'
      exact le_rfl
    | some b =>
      rw [hr] at ha'
      cases ha'
      exact h.paused a hr
  clientWaitMs := by rw [waits_paused]; exact h.clientWaitMs

theorem keeps_resume (h : Keeps clock r t) :
    Keeps clock (r.resume clock) { t with marks := t.marks ++ [.resumed clock] } := by
  have hwaits := waits_resumed t clock
  rw [← h.pausedAt] at hwaits
  unfold TurnRow.resume
  cases hr : r.pausedAt with
  | none =>
    rw [hr] at hwaits
    refine ⟨h.inboundAt, h.since, h.startAt, h.started, by rw [hwaits]; exact hr, h.paused, ?_⟩
    rw [hwaits, lengths_append, h.clientWaitMs]
    exact (Int.add_zero _).symm
  | some a =>
    have hle : a ≤ clock := h.paused a hr
    rw [hr] at hwaits
    refine ⟨h.inboundAt, h.since, h.startAt, h.started, by rw [hwaits], nofun, ?_⟩
    rw [hwaits, lengths_append, ← h.clientWaitMs]
    dsimp only
    rw [max_eq_right (by omega)]
    exact congrArg _ (Int.add_zero _).symm

/-- The jobs a row reads are the turn's own, where those before it were written before it. -/
theorem turnJobs_own {jobs : List ModelJob} {inboundAt replyAt : Int} {n : Nat}
    (hsorted : (jobs.map (·.created)).Pairwise (· ≤ ·)) (hreply : ∀ x ∈ jobs.map (·.created), x ≤ replyAt)
    (hown : ∀ x ∈ (jobs.map (·.created)).drop n, inboundAt ≤ x) (hearlier : ∀ j ∈ jobs.take n, j.created < inboundAt) :
    turnJobs jobs inboundAt replyAt = jobs.drop n := by
  have hnone : (jobs.take n).filter (fun j => decide (inboundAt ≤ j.created) && decide (j.created ≤ replyAt)) = [] := by
    refine List.filter_eq_nil_iff.2 fun j hj => ?_
    have := hearlier j hj
    rw [Bool.and_eq_true, decide_eq_true_eq]
    omega
  have hall : (jobs.drop n).filter (fun j => decide (inboundAt ≤ j.created) && decide (j.created ≤ replyAt)) =
      jobs.drop n := by
    refine List.filter_eq_self.2 fun j hj => ?_
    have hlow : inboundAt ≤ j.created := hown _ (by rw [← List.map_drop]; exact List.mem_map_of_mem hj)
    have hhigh : j.created ≤ replyAt := hreply _ (List.mem_map_of_mem (List.mem_of_mem_drop hj))
    rw [decide_eq_true hlow, decide_eq_true hhigh]
    rfl
  have horder : (jobs.drop n).Pairwise fun j k => j.created ≤ k.created := by
    have := hsorted.sublist (List.drop_sublist n _)
    rw [← List.map_drop] at this
    exact List.pairwise_map.1 this
  unfold turnJobs
  conv_lhs => rw [← List.take_append_drop n jobs]
  rw [List.filter_append, hnone, hall, List.nil_append]
  exact List.Pairwise.insertionSort_eq horder

/-- The parts of the row of a turn whose jobs ran one after another. -/
theorem parts_serial {all : List ModelJob} {replyAt s : Int} {status : String} {r : TurnRow} (hr : r.startAt = some s)
    (hs : r.inboundAt ≤ s) (hne : turnJobs all r.inboundAt replyAt ≠ [])
    (hserial : Serial replyAt (turnJobs all r.inboundAt replyAt) s) :
    (timingRow c all replyAt status r).attrs.parts = some (replyAt - r.inboundAt) := by
  unfold timingRow TimingAttrs.parts
  dsimp only
  generalize turnJobs all r.inboundAt replyAt = jobs at *
  cases jobs with
  | nil => exact absurd rfl hne
  | cons j rest =>
    obtain ⟨a, hlast, ha, hreply, hsum⟩ := serial_figures hserial
    have hfirst : s ≤ j.created := hserial.1
    rw [hr, hlast]
    simp only [gap, List.head?_cons, Option.map_some, Option.bind_eq_bind, Option.bind_some, Option.pure_def, Option.some.injEq]
    omega

/-- The row closing a turn tells it. -/
theorem close_tells {jobs : List ModelJob} (h : Keeps clock r t) (hsorted : (jobs.map (·.created)).Pairwise (· ≤ ·))
    (hwritten : ∀ x ∈ jobs.map (·.created), x ≤ clock) (hown : ∀ x ∈ (jobs.map (·.created)).drop t.firstJob, t.inboundAt ≤ x)
    (c : Conversation) (status : String) :
    Tells ⟨t, clock, status, jobs.take t.firstJob, jobs.drop t.firstJob⟩ (timingRow c jobs clock status r) where
  inboundAt := h.inboundAt
  replyAt := ⟨rfl, rfl⟩
  status := ⟨rfl, rfl⟩
  clientWaitMs := by
    change (clientWait clock r).1 = lengths (t.waits.2 ++ (t.waits.1.map fun a => (a, clock)).toList)
    rw [lengths_append, ← h.clientWaitMs, ← h.pausedAt, clientWait]
    cases hr : r.pausedAt with
    | none => exact (Int.add_zero _).symm
    | some a =>
      have hle : a ≤ clock := h.paused a hr
      dsimp only
      rw [max_eq_right (by omega)]
      exact congrArg _ (Int.add_zero _).symm
  parts := by
    intro hearlier hne ⟨s, hs, hserial⟩
    have hjobs : turnJobs jobs r.inboundAt clock = jobs.drop t.firstJob := by
      rw [h.inboundAt]
      exact turnJobs_own hsorted hwritten hown hearlier
    have hstart : r.inboundAt ≤ s := by
      rw [h.inboundAt]
      exact h.started s hs
    rw [parts_serial (h.startAt.trans hs) hstart (by rw [hjobs]; exact hne) (by rw [hjobs]; exact hserial), h.inboundAt]

end Record

/-! ## The steps -/

section Steps

variable {w : World} {c : Conversation} {m : Nat} {k : Int}

theorem inv_new (now : Int) : Inv (World.new now) where
  row := .none
  told := nofun
  written := nofun
  sorted := .nil
  own := nofun
  landed := nofun
  trace := .nil
  fresh := nofun
  known := nofun
  once := List.nodup_nil

/-- The record is there exactly while a turn is open. -/
theorem row_cases (h : Inv w) : (w.timing.row = none ∧ w.book.now = none) ∨
    ∃ r t, w.timing.row = some r ∧ w.book.now = some t ∧ Keeps w.book.clock r t := by
  have hrow := h.row
  cases hr : w.timing.row with
  | none =>
    rw [hr] at hrow
    cases hn : w.book.now with
    | none => exact .inl ⟨rfl, rfl⟩
    | some t =>
      rw [hn] at hrow
      cases hrow
  | some r =>
    rw [hr] at hrow
    cases hn : w.book.now with
    | none =>
      rw [hn] at hrow
      cases hrow
    | some t =>
      rw [hn] at hrow
      cases hrow with
      | some hkeeps => exact .inr ⟨r, t, rfl, rfl, hkeeps⟩

theorem inv_clock (h : Inv w) (hk : w.book.clock ≤ k) : Inv ⟨w.timing, { w.book with clock := k }⟩ where
  row := by
    rcases row_cases h with ⟨hr, hn⟩ | ⟨r, t, hr, hn, hkeeps⟩
    · rw [hr, hn]
      exact .none
    · rw [hr, hn]
      exact .some (hkeeps.later hk)
  told := h.told
  written := fun x hx => (h.written x hx).trans hk
  sorted := h.sorted
  own := h.own
  landed := h.landed
  trace := h.trace
  fresh := h.fresh
  known := h.known
  once := h.once

/-- The open turn changes, and its record with it. -/
theorem inv_update (h : Inv w) (g : TurnRow → TurnRow) (f : Turn → Turn) (posts : Nat → Posting) (saw : Nat → Option Nat)
    (hk : ∀ r t, Keeps w.book.clock r t → Keeps w.book.clock (g r) (f t))
    (hf : ∀ t, (f t).number = t.number ∧ (f t).firstJob = t.firstJob ∧ (f t).inboundAt = t.inboundAt)
    (htold : ∀ t, (t.landed = true ∨ ∃ m ∈ t.flight, w.timing.posts m = .writing true) →
      (f t).landed = true ∨ ∃ m ∈ (f t).flight, posts m = .writing true) :
    Inv ⟨{ w.timing with row := w.timing.row.map g, posts := posts },
      { w.book with now := w.book.now.map f, saw := saw }⟩ where
  row := by
    rcases row_cases h with ⟨hr, hn⟩ | ⟨r, t, hr, hn, hkeeps⟩
    · rw [hr, hn]
      exact .none
    · rw [hr, hn]
      exact .some (hk r t hkeeps)
  told := by
    intro t ht
    obtain ⟨t₀, ht₀, rfl⟩ := Option.map_eq_some_iff.1 ht
    exact htold t₀ (h.told t₀ ht₀)
  written := h.written
  sorted := h.sorted
  own := by
    intro t ht x hx
    obtain ⟨t₀, ht₀, rfl⟩ := Option.map_eq_some_iff.1 ht
    rw [(hf t₀).2.1] at hx
    rw [(hf t₀).2.2]
    exact h.own t₀ ht₀ x hx
  landed := h.landed
  trace := h.trace
  fresh := by
    intro t ht
    obtain ⟨t₀, ht₀, rfl⟩ := Option.map_eq_some_iff.1 ht
    rw [(hf t₀).1]
    exact h.fresh t₀ ht₀
  known := h.known
  once := h.once

/-- No turn is left open. -/
theorem inv_drop (h : Inv w) (posts : Nat → Posting) :
    Inv ⟨{ w.timing with row := none, posts := posts }, { w.book with now := none }⟩ where
  row := .none
  told := nofun
  written := h.written
  sorted := h.sorted
  own := nofun
  landed := h.landed
  trace := h.trace
  fresh := nofun
  known := h.known
  once := h.once

/-- The open turn ends. -/
theorem inv_close (h : Inv w) (hlanded : ∀ t ∈ w.book.now, t.landed = true) (c : Conversation) (status : String) :
    Inv ⟨closeTurn c w.book.clock status w.timing, w.book.close w.book.clock status w.timing.jobs⟩ ∧
      (w.book.close w.book.clock status w.timing.jobs).now = none := by
  unfold closeTurn Book.close
  rcases row_cases h with ⟨hr, hn⟩ | ⟨r, t, hr, hn, hkeeps⟩
  · rw [hr, hn]
    exact ⟨h, hn⟩
  · rw [hr, hn]
    refine ⟨⟨.none, nofun, h.written, h.sorted, nofun, ?_, ?_, nofun, ?_, ?_⟩, rfl⟩
    · intro e he
      rcases List.mem_append.1 he with he | he
      · exact h.landed e he
      · cases List.mem_singleton.1 he
        exact hlanded t hn
    · exact List.rel_append h.trace (.cons (close_tells hkeeps h.sorted h.written (h.own t hn) c status) .nil)
    · intro e he
      rcases List.mem_append.1 he with he | he
      · exact h.known e he
      · cases List.mem_singleton.1 he
        exact (h.fresh t hn).1
    · dsimp only
      rw [List.map_append, List.nodup_append]
      refine ⟨h.once, List.nodup_singleton _, fun x hx y hy => ?_⟩
      obtain ⟨e, he, rfl⟩ := List.mem_map.1 hx
      cases List.mem_singleton.1 hy
      exact (h.fresh t hn).2 e he

/-- A turn opens where none is. -/
theorem inv_open (h : Inv w) (hn : w.book.now = none) (m : Nat) :
    Inv ⟨{ w.timing with
        row := some ⟨w.book.clock, none, none, none, 0, 0, 0, 0, 1⟩, posts := setPost m (.writing true) w.timing.posts },
      w.book.joins m w.book.clock w.timing.jobs⟩ := by
  unfold Book.joins
  rw [hn]
  have hlen : w.timing.made.length = w.timing.jobs.length := List.length_map _
  refine ⟨.some ⟨rfl, le_rfl, rfl, nofun, rfl, nofun, rfl⟩, ?_, h.written, h.sorted, ?_, h.landed, h.trace, ?_, ?_, h.once⟩
  · intro t ht
    cases ht
    exact .inr ⟨m, List.mem_singleton_self m, if_pos rfl⟩
  · intro t ht x hx
    cases ht
    change x ∈ w.timing.made.drop w.timing.jobs.length at hx
    rw [← hlen, List.drop_length] at hx
    cases hx
  · intro t ht
    cases ht
    exact ⟨Nat.lt_succ_self _, fun e he => Nat.ne_of_lt (h.known e he)⟩
  · exact fun e he => Nat.lt_succ_of_lt (h.known e he)

/-- A message joins the turn that is open. -/
theorem inv_join (h : Inv w) {t : Turn} (hn : w.book.now = some t) (hm : w.timing.posts m ≠ .writing true) :
    Inv ⟨{ w.timing with
        row := w.timing.row.map fun r => { r with messages := r.messages + 1 }
        posts := setPost m (.writing false) w.timing.posts },
      w.book.joins m w.book.clock w.timing.jobs⟩ := by
  have hupdate := inv_update h (fun r => { r with messages := r.messages + 1 })
    (fun t => { t with flight := t.flight ++ [m] }) (setPost m (.writing false) w.timing.posts) w.book.saw
    (fun r t hk => ⟨hk.inboundAt, hk.since, hk.startAt, hk.started, hk.pausedAt, hk.paused, hk.clientWaitMs⟩)
    (fun t => ⟨rfl, rfl, rfl⟩) ?_
  · unfold Book.joins
    rw [hn] at hupdate ⊢
    exact hupdate
  · rintro t (hl | ⟨m', hm', hw⟩)
    · exact .inl hl
    · refine .inr ⟨m', List.mem_append_left _ hm', ?_⟩
      rw [setPost, if_neg]
      · exact hw
      · rintro rfl
        exact hm hw

theorem setPost_other {m m' : Nat} {x : Posting} {posts : Nat → Posting} (h : posts m' = .writing true)
    (hm : posts m ≠ .writing true) : setPost m x posts m' = .writing true := by
  rw [setPost, if_neg]
  · exact h
  · rintro rfl
    exact hm h

theorem inv_posted (h : Inv w) (hm : w.timing.posts m ≠ .writing true) (x : Posting) (saw : Nat → Option Nat) :
    Inv ⟨{ w.timing with posts := setPost m x w.timing.posts }, { w.book with saw := saw }⟩ := by
  have hupdate := inv_update h id id (setPost m x w.timing.posts) saw (fun _ _ hk => hk) (fun _ => ⟨rfl, rfl, rfl⟩)
    fun t ht => ht.imp id fun ⟨m', hm', hw⟩ => ⟨m', hm', setPost_other hw hm⟩
  rw [Option.map_id, Option.map_id] at hupdate
  exact hupdate

theorem closeTurn_jobs (c : Conversation) (replyAt : Int) (status : String) (t : Timing) :
    (closeTurn c replyAt status t).jobs = t.jobs := by
  unfold closeTurn
  cases t.row with
  | none => rfl
  | some r => rfl

theorem Post.timed_of_abandoned {p : Post} {prior : Bool} (h : p.abandoned prior = true) : p.timed prior = true := by
  unfold Post.abandoned at h
  unfold Post.timed
  cases hf : p.followUp with
  | false => rfl
  | true =>
    rw [hf] at h
    simp at h

theorem inv_inbound (h : Inv w) (c : Conversation) {p : Post} {prior : Bool} (hat : p.at_ = w.book.clock)
    (hpost : w.timing.posts m = .reading prior)
    (habandoned : p.abandoned prior = true → ∀ t ∈ w.book.now, w.book.saw m = some t.number ∧ t.landed = true)
    (hstale : p.stale prior = true → ∀ t ∈ w.book.now, w.book.isOver m t = true) :
    Inv ⟨postInbound c m p prior w.timing, w.book.inbound m p prior w.timing.jobs⟩ := by
  have hm : w.timing.posts m ≠ .writing true := by
    rw [hpost]
    exact Posting.noConfusion
  unfold postInbound Book.inbound
  rw [hat]
  by_cases ha : p.abandoned prior = true
  · -- the turn it found is closed, and it opens one
    have hleft := habandoned ha
    have habandon : w.book.abandon m w.book.clock w.timing.jobs = w.book.close w.book.clock "abandoned" w.timing.jobs := by
      unfold Book.abandon Book.close
      cases hn : w.book.now with
      | none => rfl
      | some t =>
        have hsaw := (hleft t hn).1
        rw [Option.any_some, hsaw, beq_self_eq_true, if_pos rfl]
    obtain ⟨hclosed, hnone⟩ := inv_close h (fun t ht => (hleft t ht).2) c "abandoned"
    have hopen := inv_open hclosed hnone m
    rw [if_pos ha, if_pos ha, if_pos (Post.timed_of_abandoned ha), if_pos (Post.timed_of_abandoned ha), habandon, ha,
      Bool.or_true]
    dsimp only at hopen ⊢
    rw [closeTurn_jobs] at hopen
    have hclock : (w.book.close w.book.clock "abandoned" w.timing.jobs).clock = w.book.clock := by
      unfold Book.close
      cases w.book.now with
      | none => rfl
      | some t => rfl
    rw [hclock] at hopen
    have hfilter : (if p.stale prior = true then
        { w.book.close w.book.clock "abandoned" w.timing.jobs with
          now := (w.book.close w.book.clock "abandoned" w.timing.jobs).now.filter fun t =>
            !(w.book.close w.book.clock "abandoned" w.timing.jobs).isOver m t }
        else w.book.close w.book.clock "abandoned" w.timing.jobs) = w.book.close w.book.clock "abandoned" w.timing.jobs := by
      split
      · rw [hnone]
        exact congrArg (fun n => { w.book.close w.book.clock "abandoned" w.timing.jobs with now := n }) hnone.symm
      · rfl
    rw [hfilter, closeTurn_jobs]
    exact hopen
  · rw [if_neg ha, if_neg ha, Bool.eq_false_iff.2 ha, Bool.or_false]
    by_cases ht : p.timed prior = true
    · rw [if_pos ht, if_pos ht]
      by_cases hs : p.stale prior = true
      · -- the record it found is replaced
        have hnone : (w.book.now.filter fun t => !w.book.isOver m t) = none := by
          cases hn : w.book.now with
          | none => rfl
          | some t =>
            rw [Option.filter_some, hstale hs t hn]
            rfl
        rw [if_pos hs, hs, hnone]
        exact inv_open (inv_drop h w.timing.posts) rfl m
      · rw [if_neg hs, Bool.eq_false_iff.2 hs]
        rcases row_cases h with ⟨hr, hn⟩ | ⟨r, t, hr, hn, -⟩
        · have hopen := inv_open h hn m
          rw [hr]
          exact hopen
        · have hjoin := inv_join h hn hm
          rw [hr] at hjoin ⊢
          exact hjoin
    · rw [if_neg ht, if_neg ht]
      exact inv_posted h hm .over w.book.saw

theorem inv_said (h : Inv w) {opened : Bool} (hpost : w.timing.posts m = .writing opened) (at_ : Int) :
    Inv ⟨{ w.timing with row := turnSaid at_ w.timing.row, posts := setPost m .over w.timing.posts },
      { w.book with now := w.book.now.map (·.land m) }⟩ := by
  refine inv_update h _ (·.land m) (setPost m .over w.timing.posts) w.book.saw (fun r t hk => ?_) (fun t => ?_) fun t ht => ?_
  · unfold Turn.land
    split
    · exact ⟨hk.inboundAt, hk.since, hk.startAt, hk.started, hk.pausedAt, hk.paused, hk.clientWaitMs⟩
    · exact ⟨hk.inboundAt, hk.since, hk.startAt, hk.started, hk.pausedAt, hk.paused, hk.clientWaitMs⟩
  · unfold Turn.land
    split
    · exact ⟨rfl, rfl, rfl⟩
    · exact ⟨rfl, rfl, rfl⟩
  · unfold Turn.land
    split
    · exact .inl rfl
    · rename_i hout
      refine ht.imp id fun ⟨m', hm', hw⟩ => ⟨m', hm', ?_⟩
      rw [setPost, if_neg]
      · exact hw
      · rintro rfl
        exact hout hm'

/-- The message that opened the turn fails, and it was the only one: no turn is left. -/
theorem inv_notSaid_opened (h : Inv w) (hfailed : ∀ t ∈ w.book.now, t.flight = [m] ∧ t.landed = false) :
    Inv ⟨{ w.timing with row := turnNotSaid true w.timing.row, posts := setPost m .over w.timing.posts },
      { w.book with now := (w.book.now.map (·.fail m)).filter (·.isOne) }⟩ := by
  have hnone : (w.book.now.map (·.fail m)).filter (·.isOne) = none := by
    cases hn : w.book.now with
    | none => rfl
    | some t =>
      obtain ⟨hflight, hlanded⟩ := hfailed t hn
      rw [Option.map_some, Option.filter_some, Turn.isOne, Turn.fail, hlanded, hflight]
      simp
  rw [hnone]
  exact inv_drop h _

/-- A message that joined the turn fails: the turn goes on. -/
theorem inv_notSaid_joined (h : Inv w) (hpost : w.timing.posts m = .writing false) :
    Inv ⟨{ w.timing with row := turnNotSaid false w.timing.row, posts := setPost m .over w.timing.posts },
      { w.book with now := (w.book.now.map (·.fail m)).filter (·.isOne) }⟩ := by
  have hm : w.timing.posts m ≠ .writing true := by
    rw [hpost]
    exact fun hc => Bool.noConfusion (Posting.writing.inj hc)
  have hupdate := inv_update h (fun r => { r with messages := max 1 (r.messages - 1) }) (·.fail m)
    (setPost m .over w.timing.posts) w.book.saw
    (fun r t hk => ⟨hk.inboundAt, hk.since, hk.startAt, hk.started, hk.pausedAt, hk.paused, hk.clientWaitMs⟩)
    (fun t => ⟨rfl, rfl, rfl⟩) fun t ht => ?_
  · have hkept : (w.book.now.map (·.fail m)).filter (·.isOne) = w.book.now.map (·.fail m) := by
      cases hn : w.book.now with
      | none => rfl
      | some t =>
        have htold := hupdate.told (t.fail m) (by rw [hn]; rfl)
        have hone : (t.fail m).isOne = true := by
          unfold Turn.isOne
          rcases htold with hl | ⟨m', hm', -⟩
          · rw [hl]
            rfl
          · cases hf : (t.fail m).flight with
            | nil =>
              rw [hf] at hm'
              cases hm'
            | cons x rest => simp
        rw [Option.map_some, Option.filter_some, hone, if_pos rfl]
    rw [hkept]
    exact hupdate
  · refine ht.imp id fun ⟨m', hm', hw⟩ => ⟨m', ?_, setPost_other hw hm⟩
    refine List.mem_filter.2 ⟨hm', decide_eq_true ?_⟩
    rintro rfl
    exact hm hw

theorem answerJob_made (n : Nat) (at_ : Int) (answer : Option Json) (jobs : List ModelJob) :
    (answerJob n at_ answer jobs).map (·.created) = jobs.map (·.created) := by
  unfold answerJob
  induction jobs generalizing n with
  | nil => rw [List.modify_nil]
  | cons j rest ih =>
    cases n with
    | zero =>
      rw [List.modify_zero_cons, List.map_cons, List.map_cons]
      split
      · rfl
      · rfl
    | succ n => rw [List.modify_succ_cons, List.map_cons, List.map_cons, ih]

theorem inv_jobWritten (h : Inv w) :
    Inv ⟨{ w.timing with jobs := w.timing.jobs ++ [⟨w.book.clock, none, none⟩] }, w.book⟩ := by
  have hmade : Timing.made { w.timing with jobs := w.timing.jobs ++ [⟨w.book.clock, none, none⟩] } =
      w.timing.made ++ [w.book.clock] := List.map_append
  refine ⟨h.row, h.told, ?_, ?_, ?_, h.landed, h.trace, h.fresh, h.known, h.once⟩
  · intro x hx
    rw [hmade] at hx
    rcases List.mem_append.1 hx with hx | hx
    · exact h.written x hx
    · exact (List.mem_singleton.1 hx).le
  · rw [hmade]
    exact List.pairwise_append.2 ⟨h.sorted, List.pairwise_singleton _ _, fun x hx y hy =>
      (h.written x hx).trans (List.mem_singleton.1 hy).ge⟩
  · intro t ht x hx
    rw [hmade, List.drop_append] at hx
    rcases List.mem_append.1 hx with hx | hx
    · exact h.own t ht x hx
    · rcases row_cases h with ⟨-, hn⟩ | ⟨r, t', -, hn, hkeeps⟩
      · exact absurd (hn.symm.trans ht) (Option.some_ne_none t).symm
      · cases Option.some.inj (hn.symm.trans ht)
        rw [List.mem_singleton.1 (List.mem_of_mem_drop hx)]
        exact hkeeps.since

theorem inv_jobAnswered (h : Inv w) (n : Nat) (at_ : Int) (answer : Option Json) :
    Inv ⟨{ w.timing with jobs := answerJob n at_ answer w.timing.jobs }, w.book⟩ := by
  have hmade : Timing.made { w.timing with jobs := answerJob n at_ answer w.timing.jobs } = w.timing.made :=
    answerJob_made n at_ answer w.timing.jobs
  refine ⟨h.row, h.told, ?_, ?_, ?_, h.landed, h.trace, h.fresh, h.known, h.once⟩
  · rw [hmade]
    exact h.written
  · rw [hmade]
    exact h.sorted
  · rw [hmade]
    exact h.own

/-- A clear step keeps the record of the turn in flight true, and the trace the row of each ended turn. -/
theorem step_inv (h : Inv w) (c : Conversation) (e : Event) (hclear : Clear w e) : Inv (step c e w).2 := by
  have hk : w.book.clock ≤ e.time.getD w.book.clock := by
    cases ht : e.time with
    | none => exact le_rfl
    | some t => exact hclear.forward t ht
  have hnow := inv_clock h hk
  cases e with
  | read m =>
    unfold step Timing.step Book.step
    dsimp only
    cases hp : w.timing.posts m with
    | unsent =>
      have hm : w.timing.posts m ≠ .writing true := by
        rw [hp]
        exact Posting.noConfusion
      exact inv_posted hnow hm _ _
    | _ => exact hnow
  | inbound m p =>
    unfold step Timing.step Book.step
    dsimp only
    cases hp : w.timing.posts m with
    | reading prior =>
      have hready : Takes w.book m p (w.timing.posts m) := hclear.ready
      rw [hp] at hready
      exact inv_inbound hnow c rfl hp hready.1 hready.2
    | _ => exact hnow
  | said m at_ =>
    unfold step Timing.step Book.step
    dsimp only
    cases hp : w.timing.posts m with
    | writing opened => exact inv_said hnow hp at_
    | _ => exact hnow
  | notSaid m =>
    unfold step Timing.step Book.step
    dsimp only
    cases hp : w.timing.posts m with
    | writing opened =>
      cases opened with
      | true => exact inv_notSaid_opened hnow (hclear.ready hp)
      | false => exact inv_notSaid_joined hnow hp
    | _ => exact hnow
  | stepStart at_ =>
    exact inv_update hnow _ _ w.timing.posts w.book.saw (fun _ _ => keeps_start) (fun _ => ⟨rfl, rfl, rfl⟩) fun _ => id
  | toolRan ms =>
    have hran := inv_update hnow (fun r => { r with toolMs := r.toolMs + max 0 ms, tools := r.tools + 1 }) id
      w.timing.posts w.book.saw
      (fun r t hk => ⟨hk.inboundAt, hk.since, hk.startAt, hk.started, hk.pausedAt, hk.paused, hk.clientWaitMs⟩)
      (fun _ => ⟨rfl, rfl, rfl⟩) fun _ => id
    rw [Option.map_id] at hran
    exact hran
  | paused at_ =>
    exact inv_update hnow _ _ w.timing.posts w.book.saw (fun _ _ => keeps_pause) (fun _ => ⟨rfl, rfl, rfl⟩) fun _ => id
  | resumed at_ =>
    exact inv_update hnow _ _ w.timing.posts w.book.saw (fun _ _ => keeps_resume) (fun _ => ⟨rfl, rfl, rfl⟩) fun _ => id
  | jobWritten at_ => exact inv_jobWritten hnow
  | jobAnswered n at_ answer => exact inv_jobAnswered hnow n at_ answer
  | ended at_ status => exact (inv_close hnow hclear.ready c status).1
  | discarded => exact inv_drop hnow w.timing.posts

end Steps

/-! ## Runs -/

/-- In every run of clear steps the trace holds the row of each turn that ended with a message landed, and no other. -/
theorem turns_timed (c : Conversation) (now : Int) (events : List Event)
    (hclear : ∀ x ∈ turns (step c) events (World.new now), Clear x.before x.act) :
    Timed (final (step c) events (World.new now)) := by
  have h : Inv (final (step c) events (World.new now)) :=
    final_guarded (inv_new now) (fun e _ hw hok => step_inv hw c e hok) hclear
  refine ⟨?_, h.once⟩
  rw [List.filter_eq_self.2 fun e he => h.landed e he]
  exact h.trace

/-- A message at 10, a step at 12, a job from 15 to 40, and the reply at 45. -/
def answered_run : List Event :=
  [.read 0, .inbound 0 ⟨10, true, 0, 0, false, false, true⟩, .said 0 11, .stepStart 12, .jobWritten 15,
    .jobAnswered 0 40 none, .ended 45 "completed"]

instance (b : Book) (m : Nat) (p : Post) : DecidablePred (Takes b m p) := fun x =>
  match x with
  | .reading prior =>
    inferInstanceAs (Decidable ((p.abandoned prior = true → ∀ t ∈ b.now, b.saw m = some t.number ∧ t.landed = true) ∧
      (p.stale prior = true → ∀ t ∈ b.now, b.isOver m t = true)))
  | .unsent | .writing _ | .over => .isTrue trivial

instance (w : World) : DecidablePred (Ready w) := fun e =>
  match e with
  | .inbound m p => inferInstanceAs (Decidable (Takes w.book m p (w.timing.posts m)))
  | .notSaid m =>
    inferInstanceAs (Decidable (w.timing.posts m = .writing true → ∀ t ∈ w.book.now, t.flight = [m] ∧ t.landed = false))
  | .ended .. => inferInstanceAs (Decidable (∀ t ∈ w.book.now, t.landed = true))
  | .read _ | .said .. | .stepStart _ | .toolRan _ | .paused _ | .resumed _ | .jobWritten _ | .jobAnswered .. | .discarded =>
    .isTrue trivial

instance (w : World) (e : Event) : Decidable (Clear w e) :=
  decidable_of_iff ((∀ t ∈ e.time, w.book.clock ≤ t) ∧ Ready w e) ⟨fun h => ⟨h.1, h.2⟩, fun h => ⟨h.forward, h.ready⟩⟩

theorem turns_timed_answered : Timed (final (step ⟨"t", "a", "s"⟩) answered_run (World.new 0)) :=
  turns_timed ⟨"t", "a", "s"⟩ 0 answered_run (by decide)

/-- A turn cancelled in the millisecond it wrote a job, in which the next one comes in. -/
def early_job : List Event :=
  [.read 0, .inbound 0 ⟨10, true, 0, 0, false, false, true⟩, .said 0 11, .stepStart 12, .jobWritten 20, .ended 20 "aborted",
    .read 1, .inbound 1 ⟨20, true, 0, 0, false, false, true⟩, .said 1 21, .stepStart 22, .jobWritten 25,
    .jobAnswered 1 40 none, .ended 45 "completed"]

/-- The second turn's row takes the first one's job for its own, and its parts come to 22 of 25. -/
example : (final (step ⟨"t", "a", "s"⟩) early_job (World.new 0)).timing.trace.map (fun r => (r.attrs.parts, r.ms)) =
    [(none, 10), (some 22, 25)] := by decide

/-- Two messages post at once, the second joining the turn the first opened; the second lands and the first fails. -/
def opener_fails : List Event :=
  [.read 0, .read 1, .inbound 0 ⟨10, true, 0, 0, false, false, true⟩, .inbound 1 ⟨10, true, 0, 0, false, false, true⟩,
    .said 1 11, .notSaid 0, .stepStart 12, .ended 45 "completed"]

/-- The turn ended, with a message landed, and has no row. -/
theorem opener_takes_row : ¬Timed (final (step ⟨"t", "a", "s"⟩) opener_fails (World.new 0)) := by
  intro h
  have hlen := h.rows.length_eq
  revert hlen
  decide

end Antiproton.TurnTiming
