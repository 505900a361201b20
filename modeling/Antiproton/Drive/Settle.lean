import Antiproton.Drive.Verdict
import Antiproton.Lib.History
import Mathlib.Data.List.Induction

/-!
# Antiproton.Drive.Settle

The loop that keeps the harness open until it is idle or only sleeping (`settle`, with `readSnapshot`,
`src/runtime/durable-drive.ts`). Its steps are what it is told: an answer to what it awaits, a commit, a notice, a tick
of its timer. Between two of them it runs to the next `await`.

* `closes_cases`: it closes on a verdict of a snapshot whose two inspections agreed.
* `Since`: what came since the last read began; `since_run` of every run.
* `wakes_run`: blocked, it reads again at the first commit, notice or tick.
-/

namespace Antiproton
namespace Drive

open History

/-! ## The loop -/

/-- `SettleOptions`, of what decides. -/
structure SettleOptions where
  minParkMs : ℚ
  deadlineMs : Option ℚ
  /-- Whether calls waiting on someone outside are read. -/
  externalWaits : Bool

/-- How often a snapshot is tried. -/
def attempts : Nat := 5

/-- What the loop awaits. -/
inductive Phase where
  | inspect
  | live (i : Inspection) (id : String) (rest : List String) (docs : List (String × ConversationDocs))
  | inbox (i : Inspection) (id : String) (live : Option LiveState) (rest : List String)
      (docs : List (String × ConversationDocs))
  | waits (i : Inspection) (docs : List (String × ConversationDocs))
  | again (i : Inspection) (docs : List (String × ConversationDocs)) (waits : ExternalWaits)
  | blocked
  /-- The promise is resolved, and what comes after it has not run yet. -/
  | woken
  | closing (verdict : ParkVerdict)
  | closed (verdict : ParkVerdict)
  | timeout (last : ParkVerdict)
  | threw

structure Settling where
  started : ℚ
  /-- The commits and notices so far, and how many there were when the read began. -/
  commits : Nat
  seen : Nat
  attempt : Nat
  now : ℚ
  phase : Phase

/-- What the loop is told. -/
inductive Event where
  | commit
  | notice
  | tick
  | inspected (i : Inspection) (now : ℚ)
  | live (l : Option LiveState)
  | inbox (items : Option Nat)
  | waits (w : ExternalWaits)
  | resumed (now : ℚ)
  | closed
  | failed

/-- A read begins. -/
def beginRead (now : ℚ) (s : Settling) : Settling :=
  { s with seen := s.commits, attempt := 0, now := now, phase := .inspect }

/-- The documents read, the second inspection is asked for. -/
def readWaits (o : SettleOptions) (i : Inspection) (docs : List (String × ConversationDocs)) (s : Settling) : Settling :=
  { s with phase := if o.externalWaits then .waits i docs else .again i docs [] }

/-- The documents of the conversations still to be read. -/
def readDocs (o : SettleOptions) (i : Inspection) (ids : List String) (docs : List (String × ConversationDocs))
    (s : Settling) : Settling :=
  match ids with
  | [] => readWaits o i docs s
  | id :: rest => { s with phase := .live i id rest docs }

/-- The conversations of an inspection, in the order they first come. -/
def conversations (i : Inspection) : List String :=
  (i.tasks.map (·.record.conversationId) ++ i.submissions.map (·.conversationId)).eraseDups

/-- What the loop does with a verdict. -/
def decideOn (o : SettleOptions) (v : ParkVerdict) (now : ℚ) (s : Settling) : Settling :=
  if !v.isWait then { s with phase := .closing v }
  else if o.deadlineMs.any fun d => decide (d ≤ now - s.started) then { s with phase := .timeout v }
  else if s.commits ≠ s.seen then beginRead now s
  else { s with phase := .blocked }

/-- A commit or a notice: counted while subscribed, and it wakes a loop that is blocked. -/
def count (s : Settling) : Settling :=
  match s.phase with
  | .closing _ | .closed _ | .timeout _ | .threw => s
  | .blocked => { s with commits := s.commits + 1, phase := .woken }
  | _ => { s with commits := s.commits + 1 }

section Loop

variable (text : Inspection → Str) (o : SettleOptions)

/-- One step of `settle`; `text` is `JSON.stringify` of an inspection. -/
def step (e : Event) (s : Settling) : Settling :=
  match e, s.phase with
  | .commit, _ => count s
  | .notice, _ => count s
  | .tick, .blocked => { s with phase := .woken }
  | .inspected i _, .inspect => readDocs o i (conversations i) [] s
  | .live l, .live i id rest docs => { s with phase := .inbox i id l rest docs }
  | .inbox n, .inbox i id l rest docs => readDocs o i rest (docs ++ [(id, ⟨l, n⟩)]) s
  | .waits w, .waits i docs => { s with phase := .again i docs w }
  | .inspected i' now, .again i docs w =>
    if text i' = text i then decideOn o (parkVerdict ⟨s.now, i, docs, w⟩ o.minParkMs) now s
    else if s.attempt + 1 < attempts then { s with attempt := s.attempt + 1, now := now, phase := .inspect }
    else decideOn o (.wait .moved) now s
  | .resumed now, .woken => beginRead now s
  | .closed, .closing v => { s with phase := .closed v }
  | .failed, .inspect | .failed, .live .. | .failed, .inbox .. | .failed, .waits .. | .failed, .again .. |
    .failed, .closing _ => { s with phase := .threw }
  | _, _ => s

def exec (e : Event) (s : Settling) : Unit × Settling := ((), step text o e s)

/-- `settle` as it is called. -/
def begun (started : ℚ) : Settling := ⟨started, 0, 0, 0, started, .inspect⟩

/-- Where a call of `settle` stands after what it was told. -/
def settled (started : ℚ) (es : List Event) : Settling := final (exec text o) es (begun started)

end Loop

/-! ## What it does -/

/-- A read has just begun, and every commit and notice so far came before it. -/
def Begins (s : Settling) : Prop := s.phase = .inspect ∧ s.attempt = 0 ∧ s.seen = s.commits

/-- A commit or a notice. -/
def Event.isNews : Event → Bool
  | commit | notice => true
  | _ => false

/-- What ends a block. -/
def Event.wakes : Event → Bool
  | commit | notice | tick => true
  | _ => false

def Event.isResumed : Event → Bool
  | resumed _ => true
  | _ => false

/-- The loop is reading. -/
def Phase.isReading : Phase → Bool
  | .inspect | .live .. | .inbox .. | .waits .. | .again .. => true
  | _ => false

/-- The loop is over, or its close was answered. -/
def Phase.isOver : Phase → Bool
  | .closed _ | .timeout _ | .threw => true
  | _ => false

section Steps

variable {text : Inspection → Str} {o : SettleOptions} {s : Settling} {e : Event} {started : ℚ}

theorem readDocs_phase (o : SettleOptions) (i : Inspection) (ids : List String)
    (docs : List (String × ConversationDocs)) (s : Settling) :
    ∃ p : Phase, p.isReading = true ∧ readDocs o i ids docs s = { s with phase := p } := by
  cases ids with
  | nil =>
    unfold readDocs readWaits
    cases o.externalWaits with
    | true => exact ⟨_, rfl, rfl⟩
    | false => exact ⟨_, rfl, rfl⟩
  | cons id rest => exact ⟨_, rfl, rfl⟩

/-- What one step can do. -/
theorem step_cases (text : Inspection → Str) (o : SettleOptions) (e : Event) (s : Settling) :
    (e.isNews = true ∧ step text o e s = count s) ∨
    (e.isNews = false ∧
      ((s.phase = .blocked ∧ step text o e s = { s with phase := .woken }) ∨
      (∃ now, s.phase = .woken ∧ step text o e s = beginRead now s) ∨
      (∃ i docs w i' now, s.phase = .again i docs w ∧ e = .inspected i' now ∧ text i' = text i ∧
        step text o e s = decideOn o (parkVerdict ⟨s.now, i, docs, w⟩ o.minParkMs) now s) ∨
      (∃ now, s.phase.isReading = true ∧ step text o e s = decideOn o (.wait .moved) now s) ∨
      (∃ now, s.phase.isReading = true ∧
        step text o e s = { s with attempt := s.attempt + 1, now := now, phase := .inspect }) ∨
      (∃ p, s.phase.isReading = true ∧ p.isReading = true ∧ step text o e s = { s with phase := p }) ∨
      (∃ p, p.isOver = true ∧ step text o e s = { s with phase := p }) ∨
      step text o e s = s)) := by
  obtain ⟨started, commits, seen, attempt, now₀, phase⟩ := s
  cases e with
  | commit => exact .inl ⟨rfl, rfl⟩
  | notice => exact .inl ⟨rfl, rfl⟩
  | tick =>
    refine .inr ⟨rfl, ?_⟩
    cases phase with
    | blocked => exact .inl ⟨rfl, rfl⟩
    | _ => exact .inr (.inr (.inr (.inr (.inr (.inr (.inr rfl))))))
  | inspected i' now =>
    refine .inr ⟨rfl, ?_⟩
    cases phase with
    | inspect =>
      obtain ⟨p, hread, hstep⟩ := readDocs_phase o i' (conversations i') [] ⟨started, commits, seen, attempt, now₀, .inspect⟩
      exact .inr (.inr (.inr (.inr (.inr (.inl ⟨p, rfl, hread, hstep⟩)))))
    | again i docs w =>
      by_cases htext : text i' = text i
      · exact .inr (.inr (.inl ⟨i, docs, w, i', now, rfl, rfl, htext, if_pos htext⟩))
      · by_cases hmore : attempt + 1 < attempts
        · exact .inr (.inr (.inr (.inr (.inl ⟨now, rfl, (if_neg htext).trans (if_pos hmore)⟩))))
        · exact .inr (.inr (.inr (.inl ⟨now, rfl, (if_neg htext).trans (if_neg hmore)⟩)))
    | _ => exact .inr (.inr (.inr (.inr (.inr (.inr (.inr rfl))))))
  | live l =>
    refine .inr ⟨rfl, ?_⟩
    cases phase with
    | live i id rest docs =>
      exact .inr (.inr (.inr (.inr (.inr (.inl ⟨.inbox i id l rest docs, rfl, rfl, rfl⟩)))))
    | _ => exact .inr (.inr (.inr (.inr (.inr (.inr (.inr rfl))))))
  | inbox n =>
    refine .inr ⟨rfl, ?_⟩
    cases phase with
    | inbox i id l rest docs =>
      obtain ⟨p, hread, hstep⟩ := readDocs_phase o i rest (docs ++ [(id, ⟨l, n⟩)])
        ⟨started, commits, seen, attempt, now₀, .inbox i id l rest docs⟩
      exact .inr (.inr (.inr (.inr (.inr (.inl ⟨p, rfl, hread, hstep⟩)))))
    | _ => exact .inr (.inr (.inr (.inr (.inr (.inr (.inr rfl))))))
  | waits w =>
    refine .inr ⟨rfl, ?_⟩
    cases phase with
    | waits i docs =>
      exact .inr (.inr (.inr (.inr (.inr (.inl ⟨.again i docs w, rfl, rfl, rfl⟩)))))
    | _ => exact .inr (.inr (.inr (.inr (.inr (.inr (.inr rfl))))))
  | resumed now =>
    refine .inr ⟨rfl, ?_⟩
    cases phase with
    | woken => exact .inr (.inl ⟨now, rfl, rfl⟩)
    | _ => exact .inr (.inr (.inr (.inr (.inr (.inr (.inr rfl))))))
  | closed =>
    refine .inr ⟨rfl, ?_⟩
    cases phase with
    | closing v => exact .inr (.inr (.inr (.inr (.inr (.inr (.inl ⟨.closed v, rfl, rfl⟩))))))
    | _ => exact .inr (.inr (.inr (.inr (.inr (.inr (.inr rfl))))))
  | failed =>
    refine .inr ⟨rfl, ?_⟩
    cases phase with
    | blocked | woken | closed v | timeout v | threw => exact .inr (.inr (.inr (.inr (.inr (.inr (.inr rfl))))))
    | _ => exact .inr (.inr (.inr (.inr (.inr (.inr (.inl ⟨.threw, rfl, rfl⟩))))))

/-- What it does with a verdict: it closes on one that is not `wait`, and blocks only where nothing came since. -/
theorem decideOn_cases (o : SettleOptions) (v : ParkVerdict) (now : ℚ) (s : Settling) :
    (v.isWait = false ∧ decideOn o v now s = { s with phase := .closing v }) ∨
      decideOn o v now s = { s with phase := .timeout v } ∨ decideOn o v now s = beginRead now s ∨
      (s.commits = s.seen ∧ decideOn o v now s = { s with phase := .blocked }) := by
  unfold decideOn
  split
  · rename_i hv
    exact .inl ⟨by simpa using hv, rfl⟩
  · split
    · exact .inr (.inl rfl)
    · split
      · exact .inr (.inr (.inl rfl))
      · rename_i hsame
        exact .inr (.inr (.inr ⟨not_not.1 hsame, rfl⟩))

theorem count_phase (s : Settling) : (count s).phase = s.phase ∨ (count s).phase = .woken := by
  unfold count
  split
  all_goals simp_all

/-- It closes on a verdict other than `wait`, of a snapshot whose two inspections agreed. -/
theorem closes_cases {v : ParkVerdict} (h : (step text o e s).phase = .closing v) :
    s.phase = .closing v ∨ ∃ i docs w i' now, s.phase = .again i docs w ∧ e = .inspected i' now ∧ text i' = text i ∧
      v = parkVerdict ⟨s.now, i, docs, w⟩ o.minParkMs ∧ v.isWait = false := by
  have hdecide : ∀ v' now, (decideOn o v' now s).phase = .closing v → v' = v ∧ v.isWait = false := by
    intro v' now hv
    rcases decideOn_cases o v' now s with ⟨hno, hd⟩ | hd | hd | ⟨-, hd⟩
    · rw [hd] at hv
      cases hv
      exact ⟨rfl, hno⟩
    all_goals
      rw [hd] at hv
      cases hv
  rcases step_cases text o e s with ⟨-, hs⟩ | ⟨-, ⟨-, hs⟩ | ⟨now, -, hs⟩ | ⟨i, docs, w, i', now, hp, he, htext, hs⟩ |
    ⟨now, -, hs⟩ | ⟨now, -, hs⟩ | ⟨p, -, hread, hs⟩ | ⟨p, hover, hs⟩ | hs⟩
  all_goals rw [hs] at h
  · rcases count_phase s with hc | hc
    · exact .inl (hc ▸ h)
    · rw [hc] at h
      cases h
  · cases h
  · cases h
  · obtain ⟨rfl, hno⟩ := hdecide _ _ h
    exact .inr ⟨i, docs, w, i', now, hp, he, htext, rfl, hno⟩
  · obtain ⟨rfl, hno⟩ := hdecide _ _ h
    cases hno
  · cases h
  · change p = .closing v at h
    rw [h] at hread
    cases hread
  · change p = .closing v at h
    rw [h] at hover
    cases hover
  · exact .inl h

/-- The loop reads, or is blocked after a read. -/
def Phase.isOpen (p : Phase) : Prop := p.isReading = true ∨ p = .blocked

theorem settled_snoc (started : ℚ) (es : List Event) (e : Event) :
    settled text o started (es ++ [e]) = step text o e (settled text o started es) := by
  rw [settled, final_append]
  rfl

/-- The read a state stands in began somewhere in the run, and what came since is counted. -/
def Since (text : Inspection → Str) (o : SettleOptions) (started : ℚ) (es : List Event) (s : Settling) : Prop :=
  ∃ before after, es = before ++ after ∧ Begins (settled text o started before) ∧
    s.seen = (settled text o started before).commits ∧
    s.commits = (settled text o started before).commits + after.countP Event.isNews

theorem Since.begun {es : List Event} (h : Begins (settled text o started es)) :
    Since text o started es (settled text o started es) :=
  ⟨es, [], by simp, h, h.2.2, by simp⟩

theorem Since.snoc {es : List Event} {s' : Settling} (h : Since text o started es s) (hseen : s'.seen = s.seen)
    (hcommits : s'.commits = s.commits + if e.isNews then 1 else 0) : Since text o started (es ++ [e]) s' := by
  obtain ⟨before, after, rfl, hb, hs, hc⟩ := h
  refine ⟨before, after ++ [e], by simp, hb, hseen.trans hs, ?_⟩
  rw [hcommits, hc, List.countP_append, List.countP_singleton, Nat.add_assoc]

theorem count_open (h : (count s).phase.isOpen) :
    s.phase.isReading = true ∧ count s = { s with commits := s.commits + 1 } := by
  unfold count at h ⊢
  cases hp : s.phase with
  | inspect | live | inbox | waits | again => exact ⟨rfl, rfl⟩
  | _ => simp [hp, Phase.isOpen, Phase.isReading] at h

/-- Of every run: the read the loop stands in, or is blocked after, and nothing came since where it is blocked. -/
theorem since_run (text : Inspection → Str) (o : SettleOptions) (started : ℚ) (es : List Event) :
    ((settled text o started es).phase.isOpen → Since text o started es (settled text o started es)) ∧
      ((settled text o started es).phase = .blocked →
        (settled text o started es).commits = (settled text o started es).seen) := by
  induction es using List.reverseRecOn with
  | nil => exact ⟨fun _ => .begun ⟨rfl, rfl, rfl⟩, nofun⟩
  | append_singleton es e ih =>
    have hfresh := fun h : Begins (settled text o started (es ++ [e])) => Since.begun h
    rw [settled_snoc] at hfresh ⊢
    generalize settled text o started es = s at ih hfresh ⊢
    obtain ⟨ihs, ihb⟩ := ih
    have hdecide : ∀ v now, e.isNews = false → s.phase.isReading = true → step text o e s = decideOn o v now s →
        ((step text o e s).phase.isOpen → Since text o started (es ++ [e]) (step text o e s)) ∧
          ((step text o e s).phase = .blocked → (step text o e s).commits = (step text o e s).seen) := by
      intro v now hnews hreading hs
      rcases decideOn_cases o v now s with ⟨-, hd⟩ | hd | hd | ⟨hsame, hd⟩
      · rw [hs, hd]
        exact ⟨fun h => by simp [Phase.isOpen, Phase.isReading] at h, nofun⟩
      · rw [hs, hd]
        exact ⟨fun h => by simp [Phase.isOpen, Phase.isReading] at h, nofun⟩
      · have hb : Begins (step text o e s) := by
          rw [hs, hd]
          exact ⟨rfl, rfl, rfl⟩
        refine ⟨fun _ => hfresh hb, fun h => ?_⟩
        rw [hb.1] at h
        cases h
      · rw [hs, hd]
        exact ⟨fun _ => (ihs (.inl hreading)).snoc rfl (by simp [hnews]), fun _ => hsame⟩
    rcases step_cases text o e s with ⟨hnews, hs⟩ | ⟨hnews, ⟨-, hs⟩ | ⟨now, -, hs⟩ |
      ⟨i, docs, w, i', now, hp, -, -, hs⟩ | ⟨now, hreading, hs⟩ | ⟨now, hreading, hs⟩ | ⟨p, hreading, hp, hs⟩ |
      ⟨p, hover, hs⟩ | hs⟩
    · rw [hs]
      refine ⟨fun hopen => ?_, fun hblocked => ?_⟩
      · obtain ⟨hreading, hc⟩ := count_open hopen
        rw [hc]
        exact (ihs (.inl hreading)).snoc rfl (by simp [hnews])
      · obtain ⟨hreading, hc⟩ := count_open (.inr hblocked)
        rw [hc] at hblocked
        rw [hblocked] at hreading
        cases hreading
    · rw [hs]
      exact ⟨fun h => by simp [Phase.isOpen, Phase.isReading] at h, nofun⟩
    · have hb : Begins (step text o e s) := by
        rw [hs]
        exact ⟨rfl, rfl, rfl⟩
      refine ⟨fun _ => hfresh hb, fun h => ?_⟩
      rw [hb.1] at h
      cases h
    · exact hdecide _ now hnews (by rw [hp]; rfl) hs
    · exact hdecide _ now hnews hreading hs
    · rw [hs]
      exact ⟨fun _ => (ihs (.inl hreading)).snoc rfl (by simp [hnews]), nofun⟩
    · rw [hs]
      refine ⟨fun _ => (ihs (.inl hreading)).snoc rfl (by simp [hnews]), fun h => ?_⟩
      change p = .blocked at h
      rw [h] at hp
      cases hp
    · rw [hs]
      refine ⟨fun hopen => ?_, fun hblocked => ?_⟩
      · rcases hopen with h | h
        · change p.isReading = true at h
          cases p with
          | closed v | timeout v | threw => cases h
          | _ => cases hover
        · change p = .blocked at h
          rw [h] at hover
          cases hover
      · change p = .blocked at hblocked
        rw [hblocked] at hover
        cases hover
    · rw [hs]
      exact ⟨fun hopen => (ihs hopen).snoc rfl (by simp [hnews]), ihb⟩

/-! ## Waking -/

theorem blocked_wakes (hp : s.phase = .blocked) (he : e.wakes = true) : (step text o e s).phase = .woken := by
  obtain ⟨started, commits, seen, attempt, now₀, phase⟩ := s
  cases hp
  cases e with
  | commit | notice | tick => rfl
  | _ => cases he

theorem blocked_stays (hp : s.phase = .blocked) (he : e.wakes = false) : step text o e s = s := by
  obtain ⟨started, commits, seen, attempt, now₀, phase⟩ := s
  cases hp
  cases e with
  | commit | notice | tick => cases he
  | _ => rfl

theorem woken_stays (hp : s.phase = .woken) (he : e.isResumed = false) : (step text o e s).phase = .woken := by
  obtain ⟨started, commits, seen, attempt, now₀, phase⟩ := s
  cases hp
  cases e with
  | resumed now => cases he
  | _ => rfl

theorem woken_reads (hp : s.phase = .woken) (now : ℚ) : Begins (step text o (.resumed now) s) := by
  obtain ⟨started, commits, seen, attempt, now₀, phase⟩ := s
  cases hp
  exact ⟨rfl, rfl, rfl⟩

theorem settled_append (started : ℚ) (es rest : List Event) :
    settled text o started (es ++ rest) = final (exec text o) rest (settled text o started es) := final_append ..

/-- Blocked, it stays so until the first commit, notice or tick, and then reads again when it is resumed. -/
theorem wakes_run (started : ℚ) {es quiet rest : List Event} (hblocked : (settled text o started es).phase = .blocked)
    (hquiet : ∀ x ∈ quiet, x.wakes = false) (he : e.wakes = true) (hrest : ∀ x ∈ rest, x.isResumed = false) (now : ℚ) :
    (settled text o started (es ++ quiet)).phase = .blocked ∧
      (settled text o started (es ++ quiet ++ e :: rest)).phase = .woken ∧
      Begins (settled text o started (es ++ quiet ++ e :: rest ++ [.resumed now])) := by
  have hstill : settled text o started (es ++ quiet) = settled text o started es := by
    induction quiet using List.reverseRecOn with
    | nil => rw [List.append_nil]
    | append_singleton quiet x ih =>
      have hbefore := ih fun y hy => hquiet y (List.mem_append_left _ hy)
      rw [← List.append_assoc, settled_snoc, hbefore]
      exact blocked_stays hblocked (hquiet x (by simp))
  have hwoken : (settled text o started (es ++ quiet ++ e :: rest)).phase = .woken := by
    induction rest using List.reverseRecOn with
    | nil =>
      rw [settled_snoc, hstill]
      exact blocked_wakes hblocked he
    | append_singleton rest x ih =>
      have hbefore := ih fun y hy => hrest y (List.mem_append_left _ hy)
      rw [← List.cons_append, ← List.append_assoc, settled_snoc]
      exact woken_stays hbefore (hrest x (by simp))
  refine ⟨by rw [hstill]; exact hblocked, hwoken, ?_⟩
  rw [settled_snoc]
  exact woken_reads hwoken now

end Steps

/-! ## Parking -/

end Drive
end Antiproton
