import Mathlib.Data.List.Induction
import Antiproton.Lib.Progress

/-!
# Antiproton.Agents.Watch

Waiting for an agent's object to say something changed (`cf/src/agents-api/watch.ts`), by a reader that reads after each
`next()` returns (`cf/src/agents-api/events.ts`). Events and timers come between any two steps of a call: when its race
settles and when it goes on are steps of their own.

* `exec_step`: all that a step can do.
* `pending_iff`: `pending` says that a message has arrived that no `next()` has reported.
* `notices_kept`: no change notice is lost.
-/

namespace Antiproton.Agents.Watch

open History (Turn turn turns final splits mem_splits splits_concat splits_turns Until)

/-! ## The watch and its reader -/

inductive Event where
  | message
  | close
  | error
deriving DecidableEq

inductive Result where
  | changed
  | timeout
  | closed
deriving DecidableEq

/-- A call of `next` that waits on its waker and its fallback: which of the two promises is resolved, and what their
race settled on. -/
structure Race where
  call : Nat
  woken : Bool
  fired : Bool
  result : Option Result
deriving DecidableEq

/-- Where the reader is: between calls, in a call that races or that only rests out its fallback, or with a read to begin
or begun. -/
inductive Reader where
  | between
  | waiting (race : Race)
  | resting (call : Nat) (fired : Bool)
  | returned
  | reading
deriving DecidableEq

structure State where
  pending : Bool
  closed : Bool
  /-- The call that `wake` resolves. -/
  wake : Option Nat
  reader : Reader
  calls : Nat
deriving DecidableEq

def start : State := ⟨false, false, none, .between, 0⟩

def Reader.resolve (call : Nat) : Reader → Reader
  | .waiting race => .waiting (if race.call = call then { race with woken := true } else race)
  | reader => reader

/-- `const w = wake; wake = null; w?.()`. -/
def State.wakeUp (s : State) : State :=
  match s.wake with
  | none => s
  | some call => { s with wake := none, reader := s.reader.resolve call }

def State.ping (s : State) : State := { s with pending := true }.wakeUp

def State.end_ (s : State) : State := { s with closed := true }.wakeUp

def State.on (s : State) : Event → State
  | .message => s.ping
  | .close => s.end_
  | .error => s.end_

/-- What an act of a watch and its reader answered. -/
inductive Seen where
  | idle
  | heard
  | hungUp
  | fired (call : Nat)
  | began (call fallbackMs : Nat)
  | moved
  | returned (call : Nat) (result : Result)
  | readBegan
deriving DecidableEq

def State.next (s : State) (fallbackMs : Nat) : Seen × State :=
  if s.pending then
    (.returned s.calls .changed, { s with pending := false, reader := .returned, calls := s.calls + 1 })
  else if s.closed then
    (.began s.calls fallbackMs, { s with reader := .resting s.calls false, calls := s.calls + 1 })
  else
    (.began s.calls fallbackMs,
      { s with wake := some s.calls, reader := .waiting ⟨s.calls, false, false, none⟩, calls := s.calls + 1 })

/-- What a call returns once its race is settled. -/
def State.resume (s : State) (race : Race) (result : Result) : Seen × State :=
  if result = .changed then
    (.returned race.call (if s.closed then .closed else .changed),
      { s with wake := none, pending := false, reader := .returned })
  else (.returned race.call .timeout, { s with wake := none, reader := .returned })

/-- Whether the promise that would settle a race so is resolved. -/
def Race.resolved (race : Race) : Result → Bool
  | .changed => race.woken
  | .timeout => race.fired
  | .closed => false

inductive Act where
  | event (e : Event)
  /-- The fallback of a call has run out. -/
  | fire (call : Nat)
  /-- `close()`, with what the source says while it is hung up. -/
  | close (during : List Event)
  | next (fallbackMs : Nat)
  | settle (result : Result)
  | resume
  | read
  | readDone
deriving DecidableEq

def exec : Act → State → Seen × State
  | .event e, s => (.heard, s.on e)
  | .fire call, s =>
    match s.reader with
    | .waiting race =>
      if race.call = call then (.fired call, { s with reader := .waiting { race with fired := true } }) else (.idle, s)
    | .resting resting _ => if resting = call then (.fired call, { s with reader := .resting resting true }) else (.idle, s)
    | _ => (.idle, s)
  | .close during, s => if s.closed then (.idle, s) else (.hungUp, (during.foldl State.on s).end_)
  | .next fallbackMs, s => if s.reader = .between then s.next fallbackMs else (.idle, s)
  | .settle result, s =>
    match s.reader with
    | .waiting race =>
      if race.resolved result ∧ race.result = none then
        (.moved, { s with reader := .waiting { race with result := some result } })
      else (.idle, s)
    | _ => (.idle, s)
  | .resume, s =>
    match s.reader with
    | .waiting race =>
      match race.result with
      | none => (.idle, s)
      | some result => s.resume race result
    | .resting call true => (.returned call .closed, { s with reader := .returned })
    | _ => (.idle, s)
  | .read, s => if s.reader = .returned then (.readBegan, { s with reader := .reading }) else (.idle, s)
  | .readDone, s => if s.reader = .reading then (.moved, { s with reader := .between }) else (.idle, s)

/-! ## What events do -/

/-- A waker is stored for the call that waits for it. -/
def State.Armed (s : State) : Prop :=
  match s.reader with
  | .waiting race => race.call < s.calls ∧ (race.woken = true ∨ s.wake = some race.call)
  | .resting call _ => call < s.calls
  | _ => True

def Reader.awake : Reader → Reader
  | .waiting race => .waiting { race with woken := true }
  | reader => reader

/-- What a source says, taken together. -/
def State.hear (s : State) (es : List Event) : State :=
  { s with
    pending := s.pending || es.contains .message
    closed := s.closed || es.any (· ≠ .message)
    wake := none
    reader := s.reader.awake }

theorem wakeUp_eq {s : State} (h : s.Armed) : s.wakeUp = { s with wake := none, reader := s.reader.awake } := by
  obtain ⟨pending, closed, wake, reader, calls⟩ := s
  cases reader with
  | waiting race =>
    obtain ⟨-, hwoken | hwake⟩ := h
    · have hrace : { race with woken := true } = race := by rw [← hwoken]
      cases wake with
      | none => simp only [State.wakeUp, Reader.awake, hrace]
      | some call => simp only [State.wakeUp, Reader.resolve, Reader.awake, hrace, ite_self]
    · cases hwake
      simp only [State.wakeUp, Reader.resolve, Reader.awake, if_true]
  | _ => cases wake <;> rfl

theorem armed_hear {s : State} (h : s.Armed) (es : List Event) : (s.hear es).Armed := by
  obtain ⟨pending, closed, wake, reader, calls⟩ := s
  cases reader with
  | waiting race => exact ⟨h.1, .inl rfl⟩
  | resting call fired => exact h
  | _ => trivial

theorem on_eq {s : State} (h : s.Armed) (e : Event) : s.on e = s.hear [e] := by
  cases e with
  | message =>
    have hping : s.ping = { s with pending := true, wake := none, reader := s.reader.awake } :=
      wakeUp_eq (s := { s with pending := true }) h
    simp [State.on, hping, State.hear]
  | close =>
    have hend : s.end_ = { s with closed := true, wake := none, reader := s.reader.awake } :=
      wakeUp_eq (s := { s with closed := true }) h
    simp [State.on, hend, State.hear]
  | error =>
    have hend : s.end_ = { s with closed := true, wake := none, reader := s.reader.awake } :=
      wakeUp_eq (s := { s with closed := true }) h
    simp [State.on, hend, State.hear]

theorem awake_awake (reader : Reader) : reader.awake.awake = reader.awake := by
  cases reader <;> rfl

theorem hear_append (s : State) (es es' : List Event) : (s.hear es).hear es' = s.hear (es ++ es') := by
  simp only [State.hear, awake_awake, List.contains_eq_any_beq, List.any_append, Bool.or_assoc]

/-- Events one after another are heard together. -/
theorem foldl_on {s : State} (h : s.Armed) (during : List Event) :
    (during.foldl State.on s).end_ = s.hear (during ++ [.close]) := by
  induction during generalizing s with
  | nil => exact on_eq h .close
  | cons e during ih =>
    rw [List.foldl_cons, on_eq h, ih (armed_hear h [e]), hear_append]
    rfl

/-! ## What a step can do -/

/-- The reader's own acts. -/
def Act.ofReader : Act → Bool
  | .next _ | .settle _ | .resume | .read | .readDone => true
  | _ => false

/-- The events an act brings; a hang-up ends the watch as an event of the source's does. -/
def arrivals (a : Act) (s : State) : List Event :=
  match a with
  | .event e => [e]
  | .close during => if s.closed then [] else during ++ [.close]
  | _ => []

/-- All that an act can do. -/
inductive Step (s : State) : Act → Seen → State → Prop where
  | idle (a : Act) (hquiet : arrivals a s = []) : Step s a .idle s
  | event (e : Event) : Step s (.event e) .heard (s.hear [e])
  | hungUp (during : List Event) (hopen : s.closed = false) : Step s (.close during) .hungUp (s.hear (during ++ [.close]))
  | fired {race : Race} (hreader : s.reader = .waiting race) :
    Step s (.fire race.call) (.fired race.call) { s with reader := .waiting { race with fired := true } }
  | rested {call : Nat} {fired : Bool} (hreader : s.reader = .resting call fired) :
    Step s (.fire call) (.fired call) { s with reader := .resting call true }
  | nextPending (fallbackMs : Nat) (hreader : s.reader = .between) (hpending : s.pending = true) :
    Step s (.next fallbackMs) (.returned s.calls .changed)
      { s with pending := false, reader := .returned, calls := s.calls + 1 }
  | nextClosed (fallbackMs : Nat) (hreader : s.reader = .between) (hpending : s.pending = false) (hclosed : s.closed = true) :
    Step s (.next fallbackMs) (.began s.calls fallbackMs) { s with reader := .resting s.calls false, calls := s.calls + 1 }
  | nextWaits (fallbackMs : Nat) (hreader : s.reader = .between) (hpending : s.pending = false) (hopen : s.closed = false) :
    Step s (.next fallbackMs) (.began s.calls fallbackMs)
      { s with wake := some s.calls, reader := .waiting ⟨s.calls, false, false, none⟩, calls := s.calls + 1 }
  | settled {race : Race} {result : Result} (hreader : s.reader = .waiting race) (hresolved : race.resolved result = true)
    (hfirst : race.result = none) :
    Step s (.settle result) .moved { s with reader := .waiting { race with result := some result } }
  | changed {race : Race} (hreader : s.reader = .waiting race) (hresult : race.result = some .changed) :
    Step s .resume (.returned race.call (if s.closed then .closed else .changed))
      { s with wake := none, pending := false, reader := .returned }
  | timeout {race : Race} (hreader : s.reader = .waiting race) (hresult : race.result ≠ none)
    (hchanged : race.result ≠ some .changed) :
    Step s .resume (.returned race.call .timeout) { s with wake := none, reader := .returned }
  | closed {call : Nat} (hreader : s.reader = .resting call true) :
    Step s .resume (.returned call .closed) { s with reader := .returned }
  | read (hreader : s.reader = .returned) : Step s .read .readBegan { s with reader := .reading }
  | readDone (hreader : s.reader = .reading) : Step s .readDone .moved { s with reader := .between }

theorem exec_step {s : State} (h : s.Armed) (a : Act) : Step s a (exec a s).1 (exec a s).2 := by
  cases a with
  | event e =>
    have hon : exec (.event e) s = (.heard, s.hear [e]) := congrArg (Prod.mk _) (on_eq h e)
    rw [hon]
    exact .event e
  | close during =>
    simp only [exec]
    split
    · rename_i hclosed
      exact .idle _ (if_pos hclosed)
    · rename_i hopen
      rw [foldl_on h]
      exact .hungUp during (Bool.eq_false_iff.2 hopen)
  | fire call =>
    simp only [exec]
    split
    · rename_i race hreader
      split
      · rename_i hcall
        rw [← hcall]
        exact .fired hreader
      · exact .idle _ rfl
    · rename_i resting fired hreader
      split
      · rename_i hcall
        rw [← hcall]
        exact .rested hreader
      · exact .idle _ rfl
    · exact .idle _ rfl
  | next fallbackMs =>
    simp only [exec]
    split
    · rename_i hreader
      unfold State.next
      split
      · rename_i hpending
        exact .nextPending fallbackMs hreader hpending
      · rename_i hpending
        split
        · rename_i hclosed
          exact .nextClosed fallbackMs hreader (Bool.eq_false_iff.2 hpending) hclosed
        · rename_i hopen
          exact .nextWaits fallbackMs hreader (Bool.eq_false_iff.2 hpending) (Bool.eq_false_iff.2 hopen)
    · exact .idle _ rfl
  | settle result =>
    simp only [exec]
    split
    · rename_i race hreader
      split
      · rename_i hsettles
        exact .settled hreader hsettles.1 hsettles.2
      · exact .idle _ rfl
    · exact .idle _ rfl
  | resume =>
    simp only [exec]
    split
    · rename_i race hreader
      split
      · exact .idle _ rfl
      · rename_i result hresult
        unfold State.resume
        split
        · rename_i hchanged
          exact .changed hreader (hresult.trans (congrArg some hchanged))
        · rename_i hchanged
          refine .timeout hreader ?_ ?_
          · rw [hresult]
            exact Option.some_ne_none _
          · rw [hresult]
            exact fun hsome => hchanged (Option.some.inj hsome)
    · rename_i call hreader
      exact .closed hreader
    · exact .idle _ rfl
  | read =>
    simp only [exec]
    split
    · rename_i hreader
      exact .read hreader
    · exact .idle _ rfl
  | readDone =>
    simp only [exec]
    split
    · rename_i hreader
      exact .readDone hreader
    · exact .idle _ rfl

theorem Step.armed {s s' : State} {a : Act} {seen : Seen} (hstep : Step s a seen s') (h : s.Armed) : s'.Armed := by
  cases hstep with
  | idle => exact h
  | event e => exact armed_hear h [e]
  | hungUp during => exact armed_hear h _
  | fired hreader | rested hreader | settled hreader =>
    rw [State.Armed, hreader] at h
    exact h
  | nextClosed => exact Nat.lt_succ_self _
  | nextWaits => exact ⟨Nat.lt_succ_self _, .inr rfl⟩
  | _ => trivial

theorem armed_final (acts : List Act) : (final exec acts start).Armed :=
  History.final_invariant trivial fun a _ h => (exec_step h a).armed h

/-! ## What a history shows -/

section Shows

variable (x : Turn State Act Seen)

/-- A message arrives. -/
def Hears : Prop := .message ∈ arrivals x.act x.before

/-- The source ends, or is hung up. -/
def Ends : Prop := ∃ e ∈ arrivals x.act x.before, e ≠ .message

/-- The reader calls `next`. -/
def Calls : Prop := (∃ fallbackMs, x.act = .next fallbackMs) ∧ x.answer ≠ .idle

/-- A call returns, and not because its fallback ran out. -/
def Reports : Prop := ∃ call result, x.answer = .returned call result ∧ result ≠ .timeout ∧ x.before.reader ≠ .resting call true

/-- The reader goes on. -/
def moves : Bool := x.act.ofReader && x.answer ≠ .idle

def ReadBegins : Prop := x.answer = .readBegan

end Shows

/-- A message has arrived that no call has reported. -/
def Unreported (ts : List (Turn State Act Seen)) : Prop := ∃ x ∈ splits ts, Hears x.2.1 ∧ ∀ u ∈ x.2.2, ¬Reports u

/-- The first call returns `changed` at once. -/
def AtOnce (ts : List (Turn State Act Seen)) : Prop :=
  ∀ y ∈ splits ts, Calls y.2.1 → (∀ u ∈ y.1, ¬Calls u) → ∃ call, y.2.1.answer = .returned call .changed

/-- The reader can go on. -/
def CanMove (s : State) : Prop := ∃ a, moves (turn exec a s) = true

/-! ## What `pending` says -/

section Pending

variable {s s' : State} {a : Act} {seen : Seen} {ts : List (Turn State Act Seen)} {x : Turn State Act Seen}

theorem Step.pending_iff (hstep : Step s a seen s') :
    s'.pending = true ↔ Hears ⟨s, a, seen, s'⟩ ∨ s.pending = true ∧ ¬Reports ⟨s, a, seen, s'⟩ := by
  cases hstep with
  | idle a hquiet => simp [Hears, Reports, hquiet]
  | event e => simp [Hears, Reports, arrivals, State.hear, or_comm]
  | hungUp during hopen => simp [Hears, Reports, arrivals, State.hear, hopen, or_comm]
  | nextPending fallbackMs hreader => simp [Hears, Reports, arrivals, hreader]
  | changed hreader => cases hclosed : s.closed <;> simp [Hears, Reports, arrivals, hreader]
  | closed hreader => simp [Hears, Reports, arrivals, hreader]
  | _ => simp [Hears, Reports, arrivals]

theorem unreported_concat : Unreported (ts ++ [x]) ↔ Hears x ∨ Unreported ts ∧ ¬Reports x := by
  unfold Unreported
  rw [splits_concat]
  constructor
  · rintro ⟨y, hy, hhears, hnone⟩
    rcases List.mem_append.1 hy with hy | hy
    · obtain ⟨z, hz, rfl⟩ := List.mem_map.1 hy
      refine .inr ⟨⟨z, hz, hhears, fun u hu => hnone u (List.mem_append_left _ hu)⟩, hnone x ?_⟩
      exact List.mem_append_right _ List.mem_cons_self
    · rw [List.mem_singleton] at hy
      subst hy
      exact .inl hhears
  · rintro (hhears | ⟨⟨z, hz, hhears, hnone⟩, hx⟩)
    · exact ⟨_, List.mem_append_right _ List.mem_cons_self, hhears, fun u hu => absurd hu List.not_mem_nil⟩
    · refine ⟨_, List.mem_append_left _ (List.mem_map_of_mem hz), hhears, fun u hu => ?_⟩
      rcases List.mem_append.1 hu with hu | hu
      · exact hnone u hu
      · rw [List.mem_singleton.1 hu]
        exact hx

/-- `pending` says that a message has arrived that no call has reported. -/
theorem pending_iff (acts : List Act) :
    (final exec acts start).pending = true ↔ Unreported (turns exec acts start) := by
  induction acts using List.reverseRecOn with
  | nil => simp [start, Unreported, splits]
  | append_singleton acts a ih =>
    rw [History.final_append, History.turns_append, History.turns_cons, History.turns_nil, unreported_concat, ← ih]
    exact (exec_step (armed_final acts) a).pending_iff

end Pending

/-! ## A message waiting -/

section Ready

variable {s s' : State} {a : Act} {seen : Seen} {acts : List Act}

def Reader.inCall : Reader → Bool
  | .waiting _ => true
  | .resting _ _ => true
  | _ => false

/-- A message waits, and no call is under way. -/
structure Ready (s : State) : Prop where
  armed : s.Armed
  pending : s.pending = true
  free : s.reader.inCall = false

theorem free_awake {reader : Reader} (h : reader.inCall = false) : reader.awake.inCall = false := by
  cases reader <;> exact h

theorem ready_hear (h : Ready s) (es : List Event) : Ready (s.hear es) where
  armed := armed_hear h.armed es
  pending := Bool.or_eq_true_iff.2 (.inl h.pending)
  free := free_awake h.free

theorem Step.ready (hstep : Step s a seen s') (h : Ready s) : Calls ⟨s, a, seen, s'⟩ ∨ Ready s' := by
  have hfree := h.free
  have harmed := hstep.armed h.armed
  cases hstep with
  | idle => exact .inr h
  | event e => exact .inr (ready_hear h [e])
  | hungUp during => exact .inr (ready_hear h _)
  | nextPending fallbackMs | nextClosed fallbackMs | nextWaits fallbackMs =>
    exact .inl ⟨⟨fallbackMs, rfl⟩, fun hidle => by cases hidle⟩
  | read | readDone => exact .inr ⟨harmed, h.pending, rfl⟩
  | fired hreader | rested hreader | settled hreader | changed hreader | timeout hreader | closed hreader =>
    rw [hreader] at hfree
    cases hfree

theorem until_ready : Until exec Ready Calls := fun a _ h => (exec_step h.armed a).ready h

/-- What a call answers. -/
theorem Step.calls (hstep : Step s a seen s') (hcall : Calls ⟨s, a, seen, s'⟩) :
    s.pending = true ∧ seen = .returned s.calls .changed ∨
      s.pending = false ∧ (∃ fallbackMs, seen = .began s.calls fallbackMs) ∧
        (s.closed = true → s'.reader = .resting s.calls false) := by
  obtain ⟨⟨fallbackMs, hnext⟩, hanswer⟩ := hcall
  dsimp only at hnext hanswer
  subst hnext
  cases hstep with
  | idle => exact absurd rfl hanswer
  | nextPending _ _ hpending => exact .inl ⟨hpending, rfl⟩
  | nextClosed _ _ hpending => exact .inr ⟨hpending, ⟨fallbackMs, rfl⟩, fun _ => rfl⟩
  | nextWaits _ _ hpending hopen =>
    exact .inr ⟨hpending, ⟨fallbackMs, rfl⟩, fun hclosed => by rw [hopen] at hclosed; cases hclosed⟩

theorem Ready.atOnce (h : Ready s) : AtOnce (turns exec acts s) := by
  intro y hy hcall hfirst
  rcases until_ready.at h hy with ⟨x, hx, hcalls⟩ | hready
  · exact absurd hcalls (hfirst x hx)
  · obtain ⟨first, a, rest, -, -, hturn, -⟩ := splits_turns hy
    rw [hturn] at hcall hready ⊢
    rcases (exec_step hready.armed a).calls hcall with ⟨-, hanswer⟩ | ⟨hpending, -⟩
    · exact ⟨_, hanswer⟩
    · cases hready.pending.symm.trans hpending

end Ready

/-! ## A read to come -/

section Unread

variable {s s' : State} {a : Act} {seen : Seen} {n : Nat}

/-- The reader is about to read without beginning a fallback: one it rests on began before call `n`. -/
def Reader.Heard (n : Nat) (pending : Bool) : Reader → Prop
  | .between | .reading => pending = true
  | .waiting race => race.woken = true
  | .resting call _ => call < n
  | .returned => True

structure Unread (n : Nat) (s : State) : Prop where
  armed : s.Armed
  heard : s.reader.Heard n s.pending

/-- How many times the reader goes on at most before it is about to read. -/
def Reader.togo : Reader → Nat
  | .waiting race => if race.result = none then 2 else 1
  | .resting _ _ => 1
  | .returned => 0
  | .reading => 2
  | .between => 1

theorem heard_awake {reader : Reader} {pending : Bool} (h : reader.Heard n pending) (more : Bool) :
    reader.awake.Heard n (pending || more) := by
  cases reader with
  | between => exact Bool.or_eq_true_iff.2 (.inl h)
  | reading => exact Bool.or_eq_true_iff.2 (.inl h)
  | waiting race => rfl
  | resting call fired => exact h
  | returned => trivial

@[simp] theorem togo_awake (reader : Reader) : reader.awake.togo = reader.togo := by
  cases reader <;> rfl

theorem togo_le (reader : Reader) : reader.togo ≤ 2 := by
  cases reader with
  | waiting race =>
    dsimp only [Reader.togo]
    split <;> omega
  | _ => simp [Reader.togo]

/-- A message just heard is to be read. -/
theorem unread_hear {es : List Event} (h : s.Armed) (hes : .message ∈ es) : Unread s.calls (s.hear es) := by
  refine ⟨armed_hear h es, ?_⟩
  have hpending : (s.hear es).pending = true := by simp [State.hear, hes]
  rw [hpending]
  obtain ⟨pending, closed, wake, reader, calls⟩ := s
  cases reader with
  | resting call fired => exact h
  | returned => trivial
  | _ => rfl

theorem Step.unread (hstep : Step s a seen s') (h : Unread n s) : ReadBegins ⟨s, a, seen, s'⟩ ∨ Unread n s' ∧
    s'.reader.togo + (if moves ⟨s, a, seen, s'⟩ then 1 else 0) ≤ s.reader.togo := by
  have hheard := h.heard
  have harmed := hstep.armed h.armed
  cases hstep with
  | idle => exact .inr ⟨h, by simp [moves]⟩
  | event | hungUp => exact .inr ⟨⟨harmed, heard_awake hheard _⟩, by simp [State.hear, moves, Act.ofReader]⟩
  | fired hreader | rested hreader | readDone hreader =>
    rw [hreader] at hheard ⊢
    exact .inr ⟨⟨harmed, hheard⟩, by simp [Reader.togo, moves, Act.ofReader]⟩
  | nextPending _ hreader | closed hreader =>
    rw [hreader]
    exact .inr ⟨⟨harmed, trivial⟩, by simp [Reader.togo, moves, Act.ofReader]⟩
  | nextClosed _ hreader hpending | nextWaits _ hreader hpending =>
    rw [hreader] at hheard
    cases hpending.symm.trans hheard
  | settled hreader hresolved hfirst =>
    rw [hreader] at hheard ⊢
    exact .inr ⟨⟨harmed, hheard⟩, by simp [Reader.togo, moves, Act.ofReader, hfirst]⟩
  | changed hreader hresult | timeout hreader hresult =>
    rw [hreader]
    exact .inr ⟨⟨harmed, trivial⟩, by simp [Reader.togo, moves, Act.ofReader, hresult]⟩
  | read => exact .inl rfl

theorem until_unread : Until exec (Unread n) ReadBegins := fun a _ h => ((exec_step h.armed a).unread h).imp_right And.left

/-- No fallback begins while a read is to come. -/
theorem Step.unread_began (hstep : Step s a seen s') (h : Unread n s) (call fallbackMs : Nat) :
    seen ≠ .began call fallbackMs := by
  rintro rfl
  have hheard := h.heard
  cases hstep with
  | nextClosed _ hreader hpending | nextWaits _ hreader hpending =>
    rw [hreader] at hheard
    cases hpending.symm.trans hheard

end Unread

/-- Where a read is to come the reader can go on, or rests on a fallback that began before. -/
theorem Unread.canMove {n : Nat} {s : State} (h : Unread n s) : CanMove s ∨ ∃ call < n, s.reader = .resting call false := by
  obtain ⟨pending, closed, wake, reader, calls⟩ := s
  have hheard := h.heard
  cases reader with
  | between =>
    refine .inl ⟨.next 0, ?_⟩
    rw [show pending = true from hheard]
    rfl
  | reading => exact .inl ⟨.readDone, rfl⟩
  | returned => exact .inl ⟨.read, rfl⟩
  | resting call fired =>
    cases fired with
    | false => exact .inr ⟨call, hheard, rfl⟩
    | true => exact .inl ⟨.resume, rfl⟩
  | waiting race =>
    obtain ⟨call, woken, fired, result⟩ := race
    cases result with
    | none =>
      refine .inl ⟨.settle .changed, ?_⟩
      rw [show woken = true from hheard]
      rfl
    | some result =>
      refine .inl ⟨.resume, ?_⟩
      cases result <;> rfl

/-! ## A fallback that ran out -/

section Due

variable {s s' : State} {a : Act} {seen : Seen} {call : Nat}

/-- A call is under way whose fallback has run out. -/
def Reader.Due (call : Nat) : Reader → Prop
  | .waiting race => race.call = call ∧ race.fired = true
  | .resting own fired => own = call ∧ fired = true
  | _ => False

structure Due (call : Nat) (s : State) : Prop where
  armed : s.Armed
  due : s.reader.Due call

def Returns (call : Nat) (x : Turn State Act Seen) : Prop := ∃ result, x.answer = .returned call result

theorem due_awake {reader : Reader} (h : reader.Due call) : reader.awake.Due call := by
  cases reader <;> exact h

theorem Step.due (hstep : Step s a seen s') (h : Due call s) : Returns call ⟨s, a, seen, s'⟩ ∨ Due call s' ∧
    s'.reader.togo + (if moves ⟨s, a, seen, s'⟩ then 1 else 0) ≤ s.reader.togo := by
  have hdue := h.due
  have harmed := hstep.armed h.armed
  cases hstep with
  | idle => exact .inr ⟨h, by simp [moves]⟩
  | event | hungUp => exact .inr ⟨⟨harmed, due_awake hdue⟩, by simp [State.hear, moves, Act.ofReader]⟩
  | fired hreader | rested hreader =>
    rw [hreader] at hdue ⊢
    exact .inr ⟨⟨harmed, hdue.1, rfl⟩, by simp [Reader.togo, moves, Act.ofReader]⟩
  | settled hreader hresolved hfirst =>
    rw [hreader] at hdue ⊢
    exact .inr ⟨⟨harmed, hdue⟩, by simp [Reader.togo, moves, Act.ofReader, hfirst]⟩
  | changed hreader | timeout hreader | closed hreader =>
    rw [hreader] at hdue
    exact .inl ⟨_, congrArg (Seen.returned · _) hdue.1⟩
  | nextPending _ hreader | nextClosed _ hreader | nextWaits _ hreader | read hreader | readDone hreader =>
    rw [hreader] at hdue
    cases hdue

theorem until_due : Until exec (Due call) (Returns call) := fun a _ h => ((exec_step h.armed a).due h).imp_right And.left

theorem Due.togo_pos (h : Due call s) : 0 < s.reader.togo := by
  have hdue := h.due
  cases hreader : s.reader with
  | waiting race =>
    dsimp only [Reader.togo]
    split <;> omega
  | resting own fired => exact Nat.zero_lt_one
  | _ =>
    rw [hreader] at hdue
    cases hdue

theorem Step.fired_due (hstep : Step s a seen s') (h : s.Armed) (hseen : seen = .fired call) : Due call s' := by
  have harmed := hstep.armed h
  cases hstep with
  | fired | rested =>
    cases hseen
    exact ⟨harmed, rfl, rfl⟩
  | _ => cases hseen

theorem Due.canMove (h : Due call s) : CanMove s := by
  obtain ⟨pending, closed, wake, reader, calls⟩ := s
  have hdue := h.due
  cases reader with
  | waiting race =>
    obtain ⟨racing, woken, fired, result⟩ := race
    cases result with
    | none =>
      refine ⟨.settle .timeout, ?_⟩
      rw [show fired = true from hdue.2]
      rfl
    | some result =>
      refine ⟨.resume, ?_⟩
      cases result <;> rfl
  | resting resting fired =>
    refine ⟨.resume, ?_⟩
    rw [show fired = true from hdue.2]
    rfl
  | _ => cases hdue

end Due

/-! ## A call that timed out -/

section TimedOut

variable {s s' : State} {a : Act} {seen : Seen} {call : Nat}

/-- A call was made, and a message waits as long as it races. -/
structure Noted (call : Nat) (s : State) : Prop where
  armed : s.Armed
  made : call < s.calls
  noted : ∀ race, s.reader = .waiting race → race.call = call → s.pending = true

theorem Step.made (hstep : Step s a seen s') (h : call < s.calls) : call < s'.calls := by
  cases hstep with
  | nextPending | nextClosed | nextWaits => exact Nat.lt_succ_of_lt h
  | _ => exact h

theorem Step.began_made (hstep : Step s a seen s') {fallbackMs : Nat} (hseen : seen = .began call fallbackMs) :
    call < s'.calls := by
  cases hstep with
  | nextClosed | nextWaits =>
    cases hseen
    exact Nat.lt_succ_self _
  | _ => cases hseen

theorem noted_hear {es : List Event} (h : Noted call s) : Noted call (s.hear es) := by
  refine ⟨armed_hear h.armed es, h.made, fun race hreader hcall => ?_⟩
  obtain ⟨pending, closed, wake, reader, calls⟩ := s
  cases reader with
  | waiting racing =>
    cases hreader
    exact Bool.or_eq_true_iff.2 (.inl (h.noted racing rfl hcall))
  | _ => cases hreader

theorem Step.noted (hstep : Step s a seen s') (h : Noted call s) : Noted call s' := by
  have harmed := hstep.armed h.armed
  have hmade := hstep.made h.made
  cases hstep with
  | idle => exact h
  | event | hungUp => exact noted_hear h
  | fired hreader | settled hreader =>
    refine ⟨harmed, hmade, fun race hrace hcall => ?_⟩
    cases hrace
    exact h.noted _ hreader hcall
  | nextWaits =>
    refine ⟨harmed, hmade, fun race hrace hcall => ?_⟩
    cases hrace
    exact absurd h.made (by rw [← hcall]; exact Nat.lt_irrefl _)
  | _ => exact ⟨harmed, hmade, fun race hrace _ => by cases hrace⟩

theorem Step.hears (hstep : Step s a seen s') (h : s.Armed) (hhears : Hears ⟨s, a, seen, s'⟩) :
    Unread s'.calls s' ∧ s'.pending = true ∧ (s.reader.inCall = false → Ready s') := by
  have hpending := hstep.pending_iff.2 (.inl hhears)
  have harmed := hstep.armed h
  have hheard : ∃ es, .message ∈ es ∧ s' = s.hear es := by
    cases hstep with
    | idle a hquiet =>
      rw [Hears] at hhears
      dsimp only at hhears
      rw [hquiet] at hhears
      exact absurd hhears List.not_mem_nil
    | event e => exact ⟨_, hhears, rfl⟩
    | hungUp during hopen =>
      refine ⟨_, ?_, rfl⟩
      simpa only [Hears, arrivals, hopen, Bool.false_eq_true, if_false] using hhears
    | _ => exact absurd hhears List.not_mem_nil
  obtain ⟨es, hes, rfl⟩ := hheard
  exact ⟨unread_hear h hes, hpending, fun hfree => ⟨harmed, hpending, free_awake hfree⟩⟩

/-- A call that times out with a message noted leaves the message waiting. -/
theorem Step.timedOut (hstep : Step s a seen s') (h : Noted call s) (hseen : seen = .returned call .timeout) : Ready s' := by
  have harmed := hstep.armed h.armed
  cases hstep with
  | timeout hreader =>
    cases hseen
    exact ⟨harmed, h.noted _ hreader rfl, rfl⟩
  | changed =>
    revert hseen
    split <;> exact fun hseen => by cases hseen
  | _ => cases hseen

end TimedOut

/-! ## After the end -/

section Ended

variable {s s' : State} {a : Act} {seen : Seen} {call : Nat}

theorem Step.closed_mono (hstep : Step s a seen s') (h : s.closed = true) : s'.closed = true := by
  cases hstep with
  | event => simp [State.hear, h]
  | hungUp => simp [State.hear]
  | _ => exact h

theorem Step.ends (hstep : Step s a seen s') (hends : Ends ⟨s, a, seen, s'⟩) : s'.closed = true := by
  obtain ⟨e, he, hend⟩ := hends
  cases hstep with
  | idle a hquiet =>
    dsimp only at he
    rw [hquiet] at he
    exact absurd he List.not_mem_nil
  | event e' =>
    rw [List.mem_singleton.1 he] at hend
    simp [State.hear, hend]
  | hungUp => simp [State.hear]
  | _ => exact absurd he List.not_mem_nil

/-- A call that rests stays until its fallback runs out. -/
theorem Step.rests (hstep : Step s a seen s') (h : s.reader = .resting call false) :
    seen = .fired call ∨ s'.reader = .resting call false := by
  cases hstep with
  | idle => exact .inr h
  | event | hungUp => exact .inr (congrArg Reader.awake h)
  | rested hreader =>
    cases h.symm.trans hreader
    exact .inl rfl
  | nextPending _ hreader | nextClosed _ hreader | nextWaits _ hreader | fired hreader | settled hreader | changed hreader
  | timeout hreader | closed hreader | read hreader | readDone hreader => cases h.symm.trans hreader

theorem Step.rests_returns (hstep : Step s a seen s') (h : s.reader = .resting call false) (own : Nat) (result : Result) :
    seen ≠ .returned own result := by
  rintro rfl
  cases hstep with
  | nextPending _ hreader | changed hreader | timeout hreader | closed hreader => cases h.symm.trans hreader

theorem Step.hungUp_open (hstep : Step s a seen s') (h : seen = .hungUp) : s.closed = false ∧ s'.closed = true := by
  cases hstep with
  | hungUp during hopen => exact ⟨hopen, by simp [State.hear]⟩
  | _ => cases h

end Ended

/-! ## No notice is lost -/

section Laws

variable (ts : List (Turn State Act Seen)) (s : State)

/-- A message is followed by a read, with no fallback begun before it: the reader goes on twice at most before it reads,
and can go on until then unless it rests on a fallback that began before the message. Where the message came between
calls, the next call returns at once. -/
def ReadFollows : Prop :=
  ∀ x ∈ splits ts, Hears x.2.1 →
    (∀ y ∈ splits x.2.2, ∀ call fallbackMs, y.2.1.answer = .began call fallbackMs → ∃ z ∈ y.1, ReadBegins z) ∧
    (3 ≤ x.2.2.countP moves → ∃ z ∈ x.2.2, ReadBegins z) ∧
    ((∃ z ∈ x.2.2, ReadBegins z) ∨ CanMove s ∨ ∃ call < x.2.1.after.calls, s.reader = .resting call false) ∧
    (x.2.1.before.reader.inCall = false → AtOnce x.2.2)

/-- A message that arrives during a call that times out is reported by the next call, at once. -/
def TimeoutsReported : Prop :=
  ∀ c ∈ splits ts, ∀ call fallbackMs, c.2.1.answer = .began call fallbackMs →
    ∀ y ∈ splits c.2.2, y.2.1.answer = .returned call .timeout → (∃ x ∈ y.1, Hears x) → AtOnce y.2.2

/-- A call whose fallback has run out can go on until it returns, and does so after going on once at most. -/
def EndsPastFallback : Prop :=
  ∀ x ∈ splits ts, ∀ call, x.2.1.answer = .fired call →
    (2 ≤ x.2.2.countP moves → ∃ z ∈ x.2.2, Returns call z) ∧ ((∃ z ∈ x.2.2, Returns call z) ∨ CanMove s)

/-- A call that waits out its fallback. -/
def Waits (y : Turn State Act Seen) (later : List (Turn State Act Seen)) : Prop :=
  ∃ call fallbackMs, y.answer = .began call fallbackMs ∧
    ∀ z ∈ splits later, Returns call z.2.1 → ∃ u ∈ z.1, u.answer = .fired call

/-- After the end every call waits out its fallback. -/
def AlwaysWaits : Prop := ∀ y ∈ splits ts, Calls y.2.1 → (∃ x ∈ y.1, Ends x) → Waits y.2.1 y.2.2

/-- After the end a call that finds a message no call has reported returns `changed`, and every other waits out its
fallback. -/
def WaitsUnlessHeard : Prop :=
  ∀ y ∈ splits ts, Calls y.2.1 → (∃ x ∈ y.1, Ends x) →
    (Unreported y.1 → ∃ call, y.2.1.answer = .returned call .changed) ∧ (¬Unreported y.1 → Waits y.2.1 y.2.2)

/-- The source is hung up at most once. -/
def HungUpOnce : Prop := ∀ x ∈ splits ts, x.2.1.answer = .hungUp → ∀ y ∈ x.2.2, y.answer ≠ .hungUp

end Laws

section Run

variable {s : State} {acts : List Act}

theorem readFollows (acts : List Act) : ReadFollows (turns exec acts start) (final exec acts start) := by
  intro x hx hhears
  obtain ⟨first, a, rest, rfl, -, hturn, hrest⟩ := splits_turns hx
  rw [hturn] at hhears ⊢
  rw [hrest, History.final_append, History.final_cons]
  obtain ⟨hunread, -, hready⟩ := (exec_step (armed_final first) a).hears (armed_final first) hhears
  refine ⟨fun y hy call fallbackMs hbegan => ?_, fun hcount => ?_, ?_, fun hfree => (hready hfree).atOnce⟩
  · refine (until_unread.at hunread hy).resolve_right fun hK => ?_
    obtain ⟨first', b, rest', -, -, hturn', -⟩ := splits_turns hy
    rw [hturn'] at hbegan hK
    exact (exec_step hK.armed b).unread_began hK call fallbackMs hbegan
  · refine until_unread.reached (fun s => s.reader.togo) moves
      (fun b s' hK => ((exec_step hK.armed b).unread hK).imp_right And.right) hunread ?_
    exact Nat.lt_of_lt_of_le (Nat.lt_succ_of_le (togo_le _)) hcount
  · exact (until_unread.final hunread).imp_right Unread.canMove

theorem timeoutsReported (acts : List Act) : TimeoutsReported (turns exec acts start) := by
  intro c hc call fallbackMs hbegan y hy htimeout hheard
  obtain ⟨first, a, rest, -, -, hturn, hrest⟩ := splits_turns hc
  rw [hturn] at hbegan
  rw [hrest] at hy
  have hstep := exec_step (armed_final first) a
  have harmed := hstep.armed (armed_final first)
  have hmade : call < (exec a (final exec first start)).2.calls := hstep.began_made hbegan
  obtain ⟨first', b, rest', -, hbefore, hturn', hlater⟩ := splits_turns hy
  rw [hbefore] at hheard
  rw [hturn'] at htimeout
  rw [hlater]
  have hnoted := History.final_since (I := fun s => s.Armed ∧ call < s.calls) (K := Noted call)
    (fun b s h => ⟨(exec_step h.1 b).armed h.1, (exec_step h.1 b).made h.2⟩)
    (fun b s h hhears => ⟨(exec_step h.1 b).armed h.1, (exec_step h.1 b).made h.2, fun _ _ _ =>
      ((exec_step h.1 b).hears h.1 hhears).2.1⟩)
    (fun b s h => (exec_step h.armed b).noted h) ⟨harmed, hmade⟩ hheard
  exact ((exec_step hnoted.armed b).timedOut hnoted htimeout).atOnce

theorem endsPastFallback (acts : List Act) : EndsPastFallback (turns exec acts start) (final exec acts start) := by
  intro x hx call hfired
  obtain ⟨first, a, rest, rfl, -, hturn, hrest⟩ := splits_turns hx
  rw [hturn] at hfired
  rw [hrest, History.final_append, History.final_cons]
  have hdue := (exec_step (armed_final first) a).fired_due (armed_final first) hfired
  refine ⟨fun hcount => ?_, (until_due.final hdue).imp_right Due.canMove⟩
  refine until_due.reached (fun s => s.reader.togo - 1) moves (fun b s hK => ?_) hdue ?_
  · rcases (exec_step hK.armed b).due hK with hreturns | ⟨hK', hlower⟩
    · exact .inl hreturns
    · have hleft := hK'.togo_pos
      refine .inr ?_
      have htogo : (exec b s).2.reader.togo + (if moves (turn exec b s) then 1 else 0) ≤ s.reader.togo := hlower
      omega
  · have hmost := togo_le (exec a (final exec first start)).2.reader
    omega

theorem waitsUnlessHeard (acts : List Act) : WaitsUnlessHeard (turns exec acts start) := by
  intro y hy hcall hended
  obtain ⟨first, a, rest, -, hbefore, hturn, hlater⟩ := splits_turns hy
  rw [hbefore] at hended ⊢
  rw [hturn] at hcall ⊢
  rw [hlater, ← pending_iff first]
  have hclosed : (final exec first start).closed = true :=
    (History.final_since (I := State.Armed) (K := fun s => s.Armed ∧ s.closed = true)
      (fun b s h => (exec_step h b).armed h)
      (fun b s h hends => ⟨(exec_step h b).armed h, (exec_step h b).ends hends⟩)
      (fun b s h => ⟨(exec_step h.1 b).armed h.1, (exec_step h.1 b).closed_mono h.2⟩) (s := start) trivial hended).2
  have hstep := exec_step (armed_final first) a
  rcases hstep.calls hcall with ⟨hpending, hanswer⟩ | ⟨hpending, ⟨fallbackMs, hanswer⟩, hrests⟩
  · exact ⟨fun _ => ⟨_, hanswer⟩, fun hnone => absurd hpending hnone⟩
  · refine ⟨fun hheard => ?_, fun _ => ⟨_, fallbackMs, hanswer, ?_⟩⟩
    · cases hpending.symm.trans hheard
    · -- It rests until its fallback runs out, so it returns only after that.
      rintro z hz ⟨result, hreturned⟩
      have hresting : Until exec (fun s => s.Armed ∧ s.reader = .resting (final exec first start).calls false)
          (fun u => u.answer = .fired (final exec first start).calls) := fun b s h =>
        ((exec_step h.1 b).rests h.2).imp_right fun hreader => ⟨(exec_step h.1 b).armed h.1, hreader⟩
      refine (hresting.at ⟨hstep.armed (armed_final first), hrests hclosed⟩ hz).resolve_right fun hK => ?_
      obtain ⟨first', b, rest', -, -, hturn', -⟩ := splits_turns hz
      rw [hturn'] at hreturned hK
      exact (exec_step hK.1 b).rests_returns hK.2 _ result hreturned

theorem hungUpOnce (acts : List Act) : HungUpOnce (turns exec acts start) := by
  intro x hx hhung
  obtain ⟨first, a, rest, -, -, hturn, hrest⟩ := splits_turns hx
  rw [hturn] at hhung
  rw [hrest]
  have hstep := exec_step (armed_final first) a
  refine History.forall_turns (I := fun s => s.Armed ∧ s.closed = true)
    ⟨hstep.armed (armed_final first), (hstep.hungUp_open hhung).2⟩
    (fun b s h => ⟨(exec_step h.1 b).armed h.1, (exec_step h.1 b).closed_mono h.2⟩) fun b s h hhung' => ?_
  cases h.2.symm.trans ((exec_step h.1 b).hungUp_open hhung').1

/-- In every order of messages, ends, hang-ups, fallbacks and steps of the reader: a message is followed by a read, and
by one at once where it came between calls; what a call that times out did not see is reported by the next; no call
stays past its fallback; after the end a call that finds no message unreported waits its fallback; and the source is
hung up at most once. -/
theorem notices_kept (acts : List Act) :
    ReadFollows (turns exec acts start) (final exec acts start) ∧ TimeoutsReported (turns exec acts start) ∧
      EndsPastFallback (turns exec acts start) (final exec acts start) ∧ WaitsUnlessHeard (turns exec acts start) ∧
      HungUpOnce (turns exec acts start) :=
  ⟨readFollows acts, timeoutsReported acts, endsPastFallback acts, waitsUnlessHeard acts, hungUpOnce acts⟩

/-- A message and then the end, both between calls: the next call returns at once. -/
theorem heard_before_end : ¬AlwaysWaits (turns exec [.event .message, .event .close, .next 5000] start) := by
  intro h
  obtain ⟨call, fallbackMs, hbegan, -⟩ :=
    h ([turn exec (.event .message) start, turn exec (.event .close) (exec (.event .message) start).2],
      turn exec (.next 5000) (final exec [.event .message, .event .close] start), []) (mem_splits.2 rfl)
      ⟨⟨5000, rfl⟩, by decide⟩ ⟨_, List.mem_cons_of_mem _ List.mem_cons_self, .close, List.mem_cons_self, by decide⟩
  cases hbegan

end Run

end Antiproton.Agents.Watch
