import Antiproton.Trace.Forwarded

/-!
# Antiproton.Trace.Passes

The alarm passes of one object: `forwardPass` stages every lane and says how far the export may prune, the export runs
in its two halves, and each lane is sent; rows are written at any moment between.

* `world_step`: every event keeps what holds of the lanes, the outbox and the hold.
* `forwarded`: over every history, each row is queued, delivered or counted once, and nothing is pruned before every
  lane's cursor has passed it.
-/

namespace Antiproton.Trace

open Js

inductive LaneName where
  | github_refresh
  | agent_trace
deriving DecidableEq, Repr

/-- `FORWARD_LANES`, in the order a pass runs them. -/
def FORWARD_LANES : List LaneName := [.github_refresh, .agent_trace]

theorem mem_lanes (l : LaneName) : l ∈ FORWARD_LANES := by
  cases l <;> decide

/-- How a lane's stage went: a failed one still reads its cursor, unless that fails too. -/
inductive StageOutcome where
  | staged
  | failed
  | unreadable
deriving DecidableEq, Repr

/-- What a pass stages with. -/
structure StagePass where
  now : Int
  mounts : MountsView
  outcome : LaneName → StageOutcome

/-- One lane of `before`: its tables, and what it holds the export at. -/
def stageLane (lane : ForwardLane) (x : StagePass) (outcome : StageOutcome) (o : TraceOutbox) (t : LaneTables) :
    LaneTables × Nat :=
  match outcome with
  | .staged => (stageForward lane x.mounts x.now o t, max t.cursor (pendingTrace o t.cursor STAGE_READ_MAX).through)
  | .failed => (t, t.cursor)
  | .unreadable => (t, 0)

/-- The lowest of the lanes' cursors; `none` is `Infinity`. -/
def lower (hold : Option Nat) (through : Nat) : Option Nat := some (min (hold.getD through) through)

/-- `forwardPass`'s `before`, over the lanes given. -/
def before (lane : LaneName → ForwardLane) (x : StagePass) (o : TraceOutbox) :
    List LaneName → Option Nat → (LaneName → LaneTables) → (LaneName → LaneTables) × Option Nat
  | [], hold, tables => (tables, hold)
  | l :: lanes, hold, tables =>
    let r := stageLane (lane l) x (x.outcome l) o (tables l)
    before lane x o lanes (lower hold r.2) fun k => if k = l then r.1 else tables k

/-- The object, with every row its outbox was ever given. `hold` is what the last `before` returned, and `0` ahead of the
first; `exporting` is what an export under way has read. -/
structure World where
  exports : ExportTables
  tables : LaneName → LaneTables
  hold : Nat
  exporting : Option PendingTrace
  ever : List TraceOutboxRow

def World.empty : World := ⟨⟨⟨[], 1⟩, 0, []⟩, fun _ => LaneTables.empty, 0, none, []⟩

/-- What may happen next. An export whose put throws, or that is cut off, does not end; one send is all of a lane's
`after`. -/
inductive Event where
  | append (r : TraceOutboxRow)
  | before (x : StagePass)
  | exportRead (limit : Nat) (now : Int)
  | exportEnd (activity : Nat)
  | send (l : LaneName) (now : Int) (budget : Nat) (attempts : List Attempt)

/-- One event: what a send said, and the object after it. -/
def World.step (lane : LaneName → ForwardLane) : Event → World → Option ForwardResult × World
  | .append r, w =>
    (none, { w with
      exports := { w.exports with outbox := appendTraceRow r w.exports.outbox }
      ever := w.ever ++ [{ r with seq := w.exports.outbox.nextSeq }] })
  | .before x, w =>
    let r := before lane x w.exports.outbox FORWARD_LANES none w.tables
    (none, { w with tables := r.1, hold := r.2.getD w.hold })
  | .exportRead limit now, w =>
    let r := flushStart limit now w.exports
    (none, { w with exports := r.2, exporting := some r.1 })
  | .exportEnd activity, w =>
    match w.exporting with
    | none => (none, w)
    | some p => (none, { w with
        exports := flushEnd p (some (min activity w.hold)) w.exports
        exporting := none })
  | .send l now budget attempts, w =>
    let r := sendForward (lane l) now budget attempts (w.tables l)
    (r.1, { w with tables := fun k => if k = l then r.2 else w.tables k })

/-- The object after a history of events. -/
def World.run (lane : LaneName → ForwardLane) (events : List Event) : World :=
  History.final (World.step lane) events World.empty

/-! ## What holds of an object -/

structure WorldSound (lane : LaneName → ForwardLane) (w : World) : Prop where
  lanes : ∀ l, LaneSound (lane l) w.ever (w.tables l)
  inOrder : w.exports.outbox.InOrder
  ever : ∀ r ∈ w.ever, 0 < r.seq ∧ r.seq < w.exports.outbox.nextSeq
  rows : ∀ r ∈ w.exports.outbox.rows, r ∈ w.ever
  hold : ∀ l, w.hold ≤ (w.tables l).cursor
  below : ∀ l, (w.tables l).cursor < w.exports.outbox.nextSeq
  pruned : ∀ r ∈ w.ever, r ∉ w.exports.outbox.rows → ∀ l, r.seq ≤ (w.tables l).cursor

theorem sound_empty (lane : LaneName → ForwardLane) : WorldSound lane World.empty where
  lanes l := lane_empty (lane l) fun _ hr => nomatch hr
  inOrder := ⟨.nil, fun _ hr => nomatch hr⟩
  ever _ hr := nomatch hr
  rows _ hr := nomatch hr
  hold _ := Nat.le_refl _
  below _ := Nat.zero_lt_one
  pruned _ hr := nomatch hr

section Steps

variable {lane : LaneName → ForwardLane} {w : World}

theorem stage_cursor (lane : ForwardLane) (mounts : MountsView) (now : Int) (o : TraceOutbox) (t : LaneTables) :
    (stageForward lane mounts now o t).cursor = max t.cursor (pendingTrace o t.cursor STAGE_READ_MAX).through := by
  have htrim : ∀ t' : LaneTables, (trimQueue now t').cursor = t'.cursor := by
    intro t'
    unfold trimQueue
    split <;> rfl
  unfold stageForward
  dsimp only
  rw [htrim]
  split
  · dsimp only
    split <;> omega
  · rw [note_cursor]
    dsimp only
    split <;> omega

/-- A lane's stage keeps it, moves its cursor no further than the outbox goes, and holds the export no further than
its cursor. -/
theorem stageLane_sound {lane : ForwardLane} {ever : List TraceOutboxRow} {t : LaneTables} {o : TraceOutbox}
    (h : LaneSound lane ever t) (ho : o.InOrder) (hpast : ∀ r ∈ ever, t.cursor < r.seq → r ∈ o.rows)
    (hbelow : t.cursor < o.nextSeq) (x : StagePass) (outcome : StageOutcome) :
    LaneSound lane ever (stageLane lane x outcome o t).1 ∧ t.cursor ≤ (stageLane lane x outcome o t).1.cursor ∧
      (stageLane lane x outcome o t).1.cursor < o.nextSeq ∧
      (stageLane lane x outcome o t).2 ≤ (stageLane lane x outcome o t).1.cursor := by
  cases outcome with
  | staged =>
    have hcursor := stage_cursor lane x.mounts x.now o t
    have hthrough : (pendingTrace o t.cursor STAGE_READ_MAX).through < o.nextSeq := pending_through ho hbelow
    exact ⟨stage_sound h ho hpast x.mounts x.now, by rw [stageLane, hcursor]; omega, by rw [stageLane, hcursor]; omega,
      by rw [stageLane, hcursor]⟩
  | failed => exact ⟨h, Nat.le_refl _, hbelow, Nat.le_refl _⟩
  | unreadable => exact ⟨h, Nat.le_refl _, hbelow, Nat.zero_le _⟩

/-- `before` keeps every lane, and holds the export at the lowest cursor. -/
theorem before_sound {ever : List TraceOutboxRow} {o : TraceOutbox} (ho : o.InOrder) (x : StagePass) (lanes : List LaneName)
    (hold : Option Nat) {tables : LaneName → LaneTables} (h : ∀ l, LaneSound (lane l) ever (tables l))
    (hpast : ∀ r ∈ ever, r ∉ o.rows → ∀ l, r.seq ≤ (tables l).cursor) (hbelow : ∀ l, (tables l).cursor < o.nextSeq)
    (done : List LaneName) (hdone : ∀ l ∈ done, ∃ n ∈ hold, n ≤ (tables l).cursor) :
    let r := before lane x o lanes hold tables
    (∀ l, LaneSound (lane l) ever (r.1 l)) ∧ (∀ l, (tables l).cursor ≤ (r.1 l).cursor) ∧
      (∀ l, (r.1 l).cursor < o.nextSeq) ∧ ∀ l ∈ done ++ lanes, ∃ n ∈ r.2, n ≤ (r.1 l).cursor := by
  induction lanes generalizing hold tables done with
  | nil => exact ⟨h, fun _ => Nat.le_refl _, hbelow, by rw [List.append_nil]; exact hdone⟩
  | cons l lanes ih =>
    obtain ⟨hlane, hgrows, hless, hheld⟩ := stageLane_sound (h l) ho
      (fun r hr hlt => by
        by_contra hgone
        have hle := hpast r hr hgone l
        omega) (hbelow l) x (x.outcome l)
    let tables' : LaneName → LaneTables := fun k => if k = l then (stageLane (lane l) x (x.outcome l) o (tables l)).1
      else tables k
    have hself : tables' l = (stageLane (lane l) x (x.outcome l) o (tables l)).1 := if_pos rfl
    have hother : ∀ k, k ≠ l → tables' k = tables k := fun k hk => if_neg hk
    have hmore : ∀ k, (tables k).cursor ≤ (tables' k).cursor := by
      intro k
      by_cases hk : k = l
      · subst hk
        rw [hself]
        exact hgrows
      · rw [hother k hk]
    have hlanes' : ∀ k, LaneSound (lane k) ever (tables' k) := by
      intro k
      by_cases hk : k = l
      · subst hk
        rw [hself]
        exact hlane
      · rw [hother k hk]
        exact h k
    have hbelow' : ∀ k, (tables' k).cursor < o.nextSeq := by
      intro k
      by_cases hk : k = l
      · subst hk
        rw [hself]
        exact hless
      · rw [hother k hk]
        exact hbelow k
    have hdone' : ∀ k ∈ done ++ [l], ∃ n ∈ lower hold (stageLane (lane l) x (x.outcome l) o (tables l)).2,
        n ≤ (tables' k).cursor := by
      intro k hk
      refine ⟨_, rfl, ?_⟩
      rcases List.mem_append.1 hk with hk | hk
      · obtain ⟨n, hn, hle⟩ := hdone k hk
        cases hn
        have hmin : min n (stageLane (lane l) x (x.outcome l) o (tables l)).2 ≤ n := Nat.min_le_left _ _
        exact hmin.trans (hle.trans (hmore k))
      · rw [List.mem_singleton.1 hk, hself]
        exact (Nat.min_le_right _ _).trans hheld
    obtain ⟨hlanes, hcursors, hbounds, hholds⟩ := ih _ hlanes'
      (fun r hr hgone k => (hpast r hr hgone k).trans (hmore k)) hbelow' (done ++ [l]) hdone'
    refine ⟨hlanes, fun k => (hmore k).trans (hcursors k), hbounds, fun k hk => hholds k ?_⟩
    rw [List.append_assoc]
    exact hk

/-- A row more in the outbox, past every cursor. -/
theorem lane_append {lane : ForwardLane} {ever : List TraceOutboxRow} {t : LaneTables} (h : LaneSound lane ever t)
    {r : TraceOutboxRow} (hr : t.cursor < r.seq) : LaneSound lane (ever ++ [r]) t := by
  refine { h with kept := fun x hx hread hkind hle => ?_ }
  rcases List.mem_append.1 hx with hx | hx
  · exact h.kept x hx hread hkind hle
  · rw [List.mem_singleton.1 hx] at hle
    omega

theorem world_step (h : WorldSound lane w) (e : Event) : WorldSound lane (World.step lane e w).2 := by
  cases e with
  | append r =>
    have hnext : ∀ n, n < w.exports.outbox.nextSeq → n < w.exports.outbox.nextSeq + 1 := fun n hn => by omega
    refine ⟨fun l => lane_append (h.lanes l) (h.below l), ⟨?_, ?_⟩, ?_, ?_, h.hold, fun l => hnext _ (h.below l), ?_⟩
    · refine List.pairwise_append.2 ⟨h.inOrder.rows, List.pairwise_singleton _ _, fun x hx y hy => ?_⟩
      rw [List.mem_singleton.1 hy]
      exact h.inOrder.below x hx
    · intro x hx
      rcases List.mem_append.1 hx with hx | hx
      · exact hnext _ (h.inOrder.below x hx)
      · rw [List.mem_singleton.1 hx]
        exact Nat.lt_succ_self _
    · intro x hx
      rcases List.mem_append.1 hx with hx | hx
      · exact ⟨(h.ever x hx).1, hnext _ (h.ever x hx).2⟩
      · rw [List.mem_singleton.1 hx]
        exact ⟨Nat.zero_lt_of_lt (h.below .github_refresh), Nat.lt_succ_self _⟩
    · intro x hx
      rcases List.mem_append.1 hx with hx | hx
      · exact List.mem_append_left _ (h.rows x hx)
      · exact List.mem_append_right _ hx
    · intro x hx hgone l
      rcases List.mem_append.1 hx with hx | hx
      · exact h.pruned x hx (fun hin => hgone (List.mem_append_left _ hin)) l
      · exact absurd (List.mem_append_right _ hx) hgone
  | before x =>
    obtain ⟨hlanes, hcursors, hbounds, hholds⟩ := before_sound h.inOrder x FORWARD_LANES none h.lanes h.pruned h.below []
      fun _ hl => nomatch hl
    refine ⟨hlanes, h.inOrder, h.ever, h.rows, fun l => ?_, hbounds, fun r hr hgone l =>
      (h.pruned r hr hgone l).trans (hcursors l)⟩
    obtain ⟨n, hn, hle⟩ := hholds l (mem_lanes l)
    have hn' : (before lane x w.exports.outbox FORWARD_LANES none w.tables).2 = some n := hn
    exact (congrArg (fun hold : Option Nat => hold.getD w.hold) hn').trans_le hle
  | exportRead limit now =>
    have hsame := flushStart_outbox limit now w.exports
    refine ⟨h.lanes, ?_, ?_, ?_, h.hold, ?_, ?_⟩ <;> simp only [World.step, hsame]
    · exact h.inOrder
    · exact h.ever
    · exact h.rows
    · exact h.below
    · exact h.pruned
  | exportEnd activity =>
    rw [World.step]
    cases w.exporting with
    | none => exact h
    | some p =>
      refine ⟨h.lanes, flushEnd_inOrder h.inOrder, ?_, fun r hr => h.rows r (flushEnd_mem hr), h.hold, ?_, ?_⟩
      · simp only [flushEnd_nextSeq]
        exact h.ever
      · simp only [flushEnd_nextSeq]
        exact h.below
      · intro r hr hgone l
        by_cases hin : r ∈ w.exports.outbox.rows
        · by_contra hpast
          have hhold := h.hold l
          have hmin : min activity w.hold ≤ w.hold := Nat.min_le_right _ _
          exact hgone (flushEnd_kept hin (by dsimp only at hpast; omega))
        · exact h.pruned r hr hin l
  | send l now budget attempts =>
    have hsent := send_sound (h.lanes l) now budget attempts
    have hcursor : ∀ k, (if k = l then (sendForward (lane l) now budget attempts (w.tables l)).2 else w.tables k).cursor =
        (w.tables k).cursor := by
      intro k
      split
      · rename_i hk
        rw [hk]
        exact hsent.cursor
      · rfl
    refine ⟨fun k => ?_, h.inOrder, h.ever, h.rows, ?_, ?_, ?_⟩ <;> simp only [World.step, hcursor]
    · split
      · rename_i hk
        rw [hk]
        exact hsent.sound
      · exact h.lanes k
    · exact h.hold
    · exact h.below
    · exact h.pruned

theorem run_sound (events : List Event) : WorldSound lane (World.run lane events) :=
  History.final_invariant (sound_empty lane) fun e _ h => world_step h e

end Steps

/-! ## Over a history -/

/-- What one event of a history owes: of a send, that its result accounts for every row that was queued, and that it
made no more requests than its budget, each of which took rows off the queue, split its batch in two, or ended it; of
every event, that it pruned no row some lane had not passed. -/
structure TurnSound (lane : LaneName → ForwardLane) (x : History.Turn World Event (Option ForwardResult)) : Prop where
  whole : ∀ l now budget attempts, x.act = .send l now budget attempts → ∀ result ∈ x.answer,
    result.sent + result.dropped + result.kept = (x.before.tables l).queue.length ∧
      result.kept = (x.after.tables l).queue.length
  asked : ∀ l now budget attempts, x.act = .send l now budget attempts →
    ∃ new, (x.after.tables l).requests = (x.before.tables l).requests ++ new ∧ new.length ≤ budget
  progress : ∀ l now budget attempts, x.act = .send l now budget attempts →
    ∀ s, Under (lane l) now budget ⟨x.before.tables l, [], 0, 0, 0, none⟩ s →
    ∀ rows more, (ready s).todo = rows :: more → rows ≠ [] ∧ ∀ a,
      (post (lane l) now budget a rows more (ready s)).1 ≠ some .ok ∨
        Progress rows more (ready s) (post (lane l) now budget a rows more (ready s)).2
  pruned : ∀ r ∈ x.before.exports.outbox.rows, r ∉ x.after.exports.outbox.rows →
    ∀ l, r.seq ≤ (x.before.tables l).cursor

theorem turn_sound {lane : LaneName → ForwardLane} {w : World} (h : WorldSound lane w) (e : Event) :
    TurnSound lane (History.turn (World.step lane) e w) := by
  refine ⟨?_, ?_, ?_, fun r hr hgone l => ?_⟩
  · rintro l now budget attempts rfl result hresult
    have hself : ((World.step lane (.send l now budget attempts) w).2.tables l) =
        (sendForward (lane l) now budget attempts (w.tables l)).2 := if_pos rfl
    exact hself ▸ (send_sound (h.lanes l) now budget attempts).whole result hresult
  · rintro l now budget attempts rfl
    have hself : ((World.step lane (.send l now budget attempts) w).2.tables l) =
        (sendForward (lane l) now budget attempts (w.tables l)).2 := if_pos rfl
    exact hself ▸ (send_sound (h.lanes l) now budget attempts).asked
  · rintro l now budget attempts rfl s hs rows more htodo
    obtain ⟨hgoing, hmade⟩ := under_going hs (begin_going (h.lanes l)) (Nat.zero_le budget)
    refine ⟨(ready_going hgoing).parts rows (by rw [htodo]; exact List.mem_cons_self), fun a => ?_⟩
    by_cases hok : (post (lane l) now budget a rows more (ready s)).1 = some .ok
    · exact .inr ((post_going (ready_going hgoing) htodo ((ready_tables s).2 ▸ hmade) now a).2.2 hok).2
    · exact .inl hok
  · have hafter := world_step h e
    cases e with
    | append r' => exact absurd (List.mem_append_left _ hr) hgone
    | before x => exact absurd hr hgone
    | exportRead limit now =>
      have hsame : (flushStart limit now w.exports).2.outbox.rows = w.exports.outbox.rows :=
        congrArg TraceOutbox.rows (flushStart_outbox limit now w.exports)
      exact absurd (hsame.symm ▸ hr) hgone
    | exportEnd activity =>
      have htables : (World.step lane (.exportEnd activity) w).2.tables = w.tables ∧
          (World.step lane (.exportEnd activity) w).2.ever = w.ever := by
        rw [World.step]
        cases w.exporting <;> exact ⟨rfl, rfl⟩
      have hle := hafter.pruned r (by rw [htables.2]; exact h.rows r hr) hgone l
      rwa [htables.1] at hle
    | send l' now budget attempts => exact absurd hr hgone

/-- Every forwarded row is queued, in a batch answered 2xx, or counted once, over every history of an object. -/
theorem forwarded (lane : LaneName → ForwardLane) (events : List Event) :
    (∀ l, ∀ r ∈ (World.run lane events).ever, r.readable = true → (lane l).kinds.contains r.kind = true →
      r.seq ≤ ((World.run lane events).tables l).cursor →
        r.seq ∈ seqsOf ((World.run lane events).tables l).queue ∨ Delivered ((World.run lane events).tables l) r.seq ∨
          r.seq ∈ counted ((World.run lane events).tables l)) ∧
    (∀ l, (counted ((World.run lane events).tables l)).Nodup ∧
      ∀ x ∈ counted ((World.run lane events).tables l), x ∉ seqsOf ((World.run lane events).tables l).queue) ∧
    (∀ r ∈ (World.run lane events).ever, r ∉ (World.run lane events).exports.outbox.rows →
      ∀ l, r.seq ≤ ((World.run lane events).tables l).cursor) ∧
    (∀ x ∈ History.turns (World.step lane) events World.empty, TurnSound lane x) ∧
    ∀ l, FirstInOrder ((World.run lane events).tables l).requests := by
  have hsound : WorldSound lane (World.run lane events) := run_sound events
  refine ⟨fun l => (hsound.lanes l).kept, fun l => ⟨(hsound.lanes l).once, (hsound.lanes l).apart⟩, hsound.pruned, ?_,
    fun l => (hsound.lanes l).inOrder⟩
  exact History.forall_turns (sound_empty lane) (fun e w h => world_step h e) fun e w h => turn_sound h e

end Antiproton.Trace
