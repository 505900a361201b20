import Antiproton.Lib.History
import Antiproton.Overflow.Backstop

/-!
# Antiproton.Overflow.Bounded

The backstop over every sequence of run ends, rebuilds, posts, resets and fresh contexts, any number of posts under way
at once.

* `few_rebuilds`: with no run ended well, nothing cleared and no mark lifted, overflows start fewer rebuilds than
  `MAX_CONSECUTIVE_OVERFLOWS`.
* `stopped_turns`: what a rebuild and a mark exclude of every later overflow.
* `carried_once`: each briefing is owed, held by one post under way, or in one landed post.
-/

namespace Antiproton.Overflow

open Js

/-! ## The conversation and its posts -/

/-- A post past its last await: what it took, and what it is about to write. -/
structure Flight where
  post : Post
  brief : Option Briefing
deriving DecidableEq

/-- A post the engine took, and the conversation it is in. -/
structure Landed where
  conversation : Nat
  brief : Option Briefing
  text : Str
deriving DecidableEq

/-- The row and the main transcript. `made` counts the rebuilds, `due` is the latest one unless a clear came since, and
`resets` counts the clears and the lifted marks. -/
structure World where
  row : Backstop
  main : Nat
  transcript : List Entry
  flights : List Flight
  landed : List Landed
  made : Nat
  due : Option Nat
  resets : Nat
deriving DecidableEq

def World.empty : World := ⟨none, 0, [], [], [], 0, none, 0⟩

inductive Event where
  /-- The main transcript grows by a message. -/
  | entry (e : Entry)
  /-- A step settled a run: what it does without a wait. -/
  | settled
  /-- The run ended on an overflow: what the step does once it has the binding and the time. -/
  | overflow (judge : Judge)
  /-- A new transcript for an overflow, an operator or an idle wake. -/
  | rebuild (text : Str) (now : Int)
  /-- The mark is asked for, by a post, a push or a wake. -/
  | judged (judge : Judge)
  | reset
  | freshContext
  /-- A post's last step before the engine's write. -/
  | take (post : Post)
  | land (i : Nat)
  | fail (i : Nat)
deriving DecidableEq

/-- The part of `#overflowBackstop` before its first wait: a run that ended well is noted. -/
def settle (w : World) : World :=
  if (readBackstop w.row).pending.isSome then w
  else if (mainTip w.transcript).any (·.endsWell) then { w with row := noteRunEndedWell w.row }
  else w

def rebuildContext (text : Str) (now : Int) (w : World) : World :=
  { w with
    row := noteRebuilt (w.main + 1) ⟨text, w.made + 1, w.main + 1⟩ now w.row
    main := w.main + 1
    transcript := []
    made := w.made + 1
    due := some (w.made + 1) }

def cleared (w : World) : World := { w with row := clearBackstop w.row, due := none, resets := w.resets + 1 }

def liftMark (judge : Judge) (w : World) : World :=
  let r := needsReset judge w.row
  { w with row := r.2, resets := if (readBackstop w.row).needsReset.isSome ∧ r.1 = none then w.resets + 1 else w.resets }

def startPost (post : Post) (w : World) : World :=
  let r := takePendingBriefing w.row
  if post.pendingOnly ∧ r.1 = none then { w with row := r.2 }
  else { w with row := r.2, flights := w.flights ++ [⟨post, r.1⟩] }

def landPost (i : Nat) (w : World) : World :=
  match w.flights[i]? with
  | none => w
  | some f => { w with flights := w.flights.eraseIdx i, landed := w.landed ++ [⟨w.main, f.brief, f.post.said f.brief⟩] }

/-- A post that wrote nothing gives back what it took. -/
def failPost (i : Nat) (w : World) : World :=
  match w.flights[i]? with
  | none => w
  | some f =>
    { w with
      row := match f.brief with
        | none => w.row
        | some brief => returnPendingBriefing brief w.row
      flights := w.flights.eraseIdx i }

/-- One event, and what an overflow was answered. -/
def World.step : Event → World → Option OverflowVerdict × World
  | .entry e, w => (none, { w with transcript := w.transcript ++ [e] })
  | .settled, w => (none, settle w)
  | .overflow judge, w =>
    let r := judgeOverflow w.main (hasAnswer (mainMessages w.transcript)) judge.binding judge.now w.row
    (some r.1, { w with row := r.2 })
  | .rebuild text now, w => (none, rebuildContext text now w)
  | .judged judge, w => (none, liftMark judge w)
  | .reset, w => (none, cleared w)
  | .freshContext, w => (none, { cleared w with main := w.main + 1, transcript := [] })
  | .take post, w => (none, startPost post w)
  | .land i, w => (none, landPost i w)
  | .fail i, w => (none, failPost i w)

def World.run (events : List Event) : World := History.final World.step events World.empty

abbrev BackstopTurn := History.Turn World Event (Option OverflowVerdict)

def OverflowVerdict.rebuilds : OverflowVerdict → Bool
  | .rebuild _ => true
  | _ => false

/-- The turn is an overflow that starts a rebuild. -/
def startsRebuild (x : BackstopTurn) : Bool := x.answer.any (·.rebuilds)

/-- The turn notes a run that ended well. -/
def notesWell (x : BackstopTurn) : Bool :=
  x.act = .settled ∧ (readBackstop x.before.row).pending = none ∧ (mainTip x.before.transcript).any (·.endsWell)

/-- The turn sets the mark. -/
def setsMark (x : BackstopTurn) : Bool :=
  (readBackstop x.before.row).needsReset.isNone && (readBackstop x.after.row).needsReset.isSome

/-! ## The row -/

section Row

variable {b : Backstop} {judge : Judge}

@[simp] theorem readBackstop_some (s : BackstopState) : readBackstop (some s) = s := rfl

/-- A mark asked for stays, or is lifted, with the count, for its binding or its age. -/
theorem needsReset_cases (judge : Judge) (b : Backstop) :
    (needsReset judge b).2 = b ∧ (needsReset judge b).1 = (readBackstop b).needsReset ∨
      ∃ mark, (readBackstop b).needsReset = some mark ∧ (liftedBy judge mark).isSome ∧ (needsReset judge b).1 = none ∧
        (needsReset judge b).2 = some { readBackstop b with consecutive := 0, awaiting := none, needsReset := none } := by
  cases hmark : (readBackstop b).needsReset with
  | none => exact .inl ⟨by simp only [needsReset, hmark], by simp only [needsReset, hmark]⟩
  | some mark =>
    cases hlift : liftedBy judge mark with
    | none => exact .inl ⟨by simp only [needsReset, hmark, hlift], by simp only [needsReset, hmark, hlift]⟩
    | some why =>
      refine .inr ⟨mark, rfl, by rw [hlift]; rfl, ?_, ?_⟩ <;> simp only [needsReset, hmark, hlift]

theorem noteRunEndedWell_state (b : Backstop) :
    readBackstop (noteRunEndedWell b) = { readBackstop b with consecutive := 0, awaiting := none } := by
  unfold noteRunEndedWell
  dsimp only
  split
  · rename_i h
    rw [← h.1, ← h.2]
  · rfl

/-- Every answer to an overflow, and the row after it. -/
theorem judgeOverflow_cases (conversation : Nat) (answered : Bool) (binding : String) (now : Int) (b : Backstop) :
    let r := judgeOverflow conversation answered binding now b
    ((readBackstop b).needsReset.isSome ∧ r = (.skip, b)) ∨
    ((readBackstop b).needsReset = none ∧ stopCause (readBackstop b) conversation answered = none ∧
      r = (.rebuild ((readBackstop b).consecutive + 1),
        some { readBackstop b with consecutive := (readBackstop b).consecutive + 1 })) ∨
    ((readBackstop b).needsReset = none ∧ ∃ reason, stopCause (readBackstop b) conversation answered = some reason ∧
      r = (.stop ((readBackstop b).consecutive + 1) reason,
        some { readBackstop b with
          consecutive := (readBackstop b).consecutive + 1
          needsReset := some ⟨now, reason, some binding⟩ })) := by
  cases hmark : (readBackstop b).needsReset with
  | some mark => exact .inl ⟨rfl, by simp only [judgeOverflow, hmark]⟩
  | none =>
    cases hcause : stopCause (readBackstop b) conversation answered with
    | none => exact .inr (.inl ⟨rfl, rfl, by simp only [judgeOverflow, hmark, hcause]⟩)
    | some reason => exact .inr (.inr ⟨rfl, reason, rfl, by simp only [judgeOverflow, hmark, hcause]⟩)

theorem take_cases (b : Backstop) :
    ((readBackstop b).pending = none ∧ takePendingBriefing b = (none, b)) ∨
      ∃ brief, (readBackstop b).pending = some brief ∧
        takePendingBriefing b = (some brief, some { readBackstop b with pending := none }) := by
  cases h : (readBackstop b).pending with
  | none => exact .inl ⟨rfl, by simp only [takePendingBriefing, h]⟩
  | some brief => exact .inr ⟨brief, rfl, by simp only [takePendingBriefing, h]⟩

end Row

/-! ## What the events leave alone -/

/-- A post's step, or a message, moves no more of the row than the briefing, and neither the conversation nor the
resets. -/
structure Beside (w w' : World) : Prop where
  row : ∃ pending, readBackstop w'.row = { readBackstop w.row with pending := pending }
  main : w'.main = w.main
  resets : w'.resets = w.resets
  transcript : ∀ e ∈ w.transcript, e ∈ w'.transcript

theorem beside_entry (e : Entry) (w : World) : Beside w { w with transcript := w.transcript ++ [e] } :=
  ⟨⟨_, rfl⟩, rfl, rfl, fun _ hm => List.mem_append_left _ hm⟩

theorem beside_take (post : Post) (w : World) : Beside w (startPost post w) := by
  unfold startPost
  rcases take_cases w.row with ⟨h, htake⟩ | ⟨brief, h, htake⟩ <;> rw [htake] <;> dsimp only <;> split <;>
    exact ⟨⟨_, rfl⟩, rfl, rfl, fun _ hm => hm⟩

theorem beside_land (i : Nat) (w : World) : Beside w (landPost i w) := by
  unfold landPost
  split <;> exact ⟨⟨_, rfl⟩, rfl, rfl, fun _ hm => hm⟩

theorem beside_fail (i : Nat) (w : World) : Beside w (failPost i w) := by
  unfold failPost
  split
  · exact ⟨⟨_, rfl⟩, rfl, rfl, fun _ hm => hm⟩
  · split <;> exact ⟨⟨_, rfl⟩, rfl, rfl, fun _ hm => hm⟩

/-- A step that settled a run: it noted one that ended well, or did nothing. -/
theorem settle_cases (w : World) :
    ((readBackstop w.row).pending = none ∧ (mainTip w.transcript).any (·.endsWell) = true ∧
        settle w = { w with row := noteRunEndedWell w.row }) ∨
      (notesWell (History.turn World.step .settled w) = false ∧ settle w = w) := by
  cases hpending : (readBackstop w.row).pending with
  | some brief =>
    refine .inr ⟨?_, by simp only [settle, hpending, Option.isSome_some, if_true]⟩
    simp [notesWell, History.turn, hpending]
  | none =>
    cases htip : (mainTip w.transcript).any (·.endsWell) with
    | true => exact .inl ⟨rfl, rfl, by simp [settle, hpending, htip]⟩
    | false => exact .inr ⟨by simp [notesWell, History.turn, hpending, htip], by simp [settle, hpending, htip]⟩

/-- A mark asked for: it is lifted, or nothing moves. -/
theorem liftMark_cases (judge : Judge) (w : World) :
    liftMark judge w = w ∨
      ∃ mark, (readBackstop w.row).needsReset = some mark ∧ (liftedBy judge mark).isSome ∧
        liftMark judge w = { w with
          row := some { readBackstop w.row with consecutive := 0, awaiting := none, needsReset := none }
          resets := w.resets + 1 } := by
  unfold liftMark
  rcases needsReset_cases judge w.row with ⟨hrow, hmark⟩ | ⟨mark, hmark, hlift, hnone, hrow⟩
  · left
    dsimp only
    rw [hrow, hmark]
    cases (readBackstop w.row).needsReset <;> simp
  · right
    refine ⟨mark, hmark, hlift, ?_⟩
    dsimp only
    rw [hrow, hnone, hmark]
    simp

/-! ## How often -/

/-- Nothing cleared, no mark lifted, and no run noted that ended well. -/
def Quiet (x : BackstopTurn) : Prop := notesWell x = false ∧ x.after.resets = x.before.resets

def overflows (w : World) : Nat := (readBackstop w.row).consecutive

theorem overflows_beside {w w' : World} (h : Beside w w') : overflows w' = overflows w := by
  obtain ⟨pending, hrow⟩ := h.row
  unfold overflows
  rw [hrow]

theorem quiet_step (e : Event) (w : World) (h : Quiet (History.turn World.step e w)) :
    (startsRebuild (History.turn World.step e w) = false ∧ overflows w ≤ overflows (World.step e w).2) ∨
      (startsRebuild (History.turn World.step e w) = true ∧ overflows (World.step e w).2 = overflows w + 1 ∧
        overflows w + 1 < MAX_CONSECUTIVE_OVERFLOWS) := by
  obtain ⟨hwell, hresets⟩ := h
  cases e with
  | entry m => exact .inl ⟨rfl, (overflows_beside (beside_entry m w)).ge⟩
  | take p => exact .inl ⟨rfl, (overflows_beside (beside_take p w)).ge⟩
  | land i => exact .inl ⟨rfl, (overflows_beside (beside_land i w)).ge⟩
  | fail i => exact .inl ⟨rfl, (overflows_beside (beside_fail i w)).ge⟩
  | settled =>
    refine .inl ⟨rfl, ?_⟩
    rcases settle_cases w with ⟨hpending, htip, -⟩ | ⟨-, hsame⟩
    · simp [notesWell, History.turn, hpending, htip] at hwell
    · exact (congrArg overflows hsame).ge
  | overflow judge =>
    have hcases := judgeOverflow_cases w.main (hasAnswer (mainMessages w.transcript)) judge.binding judge.now w.row
    dsimp only at hcases
    simp only [startsRebuild, History.turn, World.step, overflows]
    rcases hcases with ⟨-, heq⟩ | ⟨-, hcause, heq⟩ | ⟨-, reason, -, heq⟩ <;> rw [heq]
    · exact .inl ⟨rfl, Nat.le_refl _⟩
    · refine .inr ⟨rfl, rfl, ?_⟩
      unfold stopCause at hcause
      split at hcause
      · cases hcause
      · split at hcause
        · cases hcause
        · omega
    · exact .inl ⟨rfl, Nat.le_succ _⟩
  | rebuild text now => exact .inl ⟨rfl, Nat.le_refl _⟩
  | judged judge =>
    refine .inl ⟨rfl, ?_⟩
    have hsame : (liftMark judge w).resets = w.resets := hresets
    rcases liftMark_cases judge w with heq | ⟨mark, -, -, heq⟩
    · exact (congrArg overflows heq).ge
    · rw [heq] at hsame
      exact absurd hsame (Nat.succ_ne_self _)
  | reset => exact absurd hresets (Nat.succ_ne_self _)
  | freshContext => exact absurd hresets (Nat.succ_ne_self _)

example : overflows (World.step .settled World.empty).2 = 0 := by decide +kernel

theorem quiet_run (events : List Event) (w : World) (h : ∀ x ∈ History.turns World.step events w, Quiet x) :
    ((History.turns World.step events w).filter startsRebuild).length = 0 ∨
      overflows w + ((History.turns World.step events w).filter startsRebuild).length < MAX_CONSECUTIVE_OVERFLOWS := by
  induction events generalizing w with
  | nil => exact .inl rfl
  | cons e rest ih =>
    have hrest := ih (World.step e w).2 fun x hx => h x (List.mem_cons_of_mem _ hx)
    rw [History.turns_cons, List.filter_cons]
    rcases quiet_step e w (h _ List.mem_cons_self) with ⟨hstart, hle⟩ | ⟨hstart, heq, hlt⟩ <;> rw [hstart]
    · rw [if_neg Bool.false_ne_true]
      omega
    · rw [if_pos rfl, List.length_cons]
      omega

/-- Overflows start fewer rebuilds in a row than the bound. -/
theorem few_rebuilds (past events : List Event)
    (h : ∀ x ∈ History.turns World.step events (World.run past), Quiet x) :
    ((History.turns World.step events (World.run past)).filter startsRebuild).length < MAX_CONSECUTIVE_OVERFLOWS := by
  have hbound : 0 < MAX_CONSECUTIVE_OVERFLOWS := by decide
  rcases quiet_run events (World.run past) h with hnone | hlt <;> omega

/-! ## What a mark and a rebuild exclude -/

def mark (w : World) : Option NeedsReset := (readBackstop w.row).needsReset

theorem mark_beside {w w' : World} (h : Beside w w') : mark w' = mark w := by
  obtain ⟨pending, hrow⟩ := h.row
  unfold mark
  rw [hrow]

/-- A mark goes only with a reset, a fresh context, or one that no longer holds; a lifted one takes the count along. -/
theorem mark_step (e : Event) (w : World) (hbefore : (mark w).isSome) :
    ((mark (World.step e w).2).isSome ∧ w.resets ≤ (World.step e w).2.resets) ∨
      w.resets < (World.step e w).2.resets ∧ (e = .reset ∨ e = .freshContext ∨
        ∃ judge m, e = .judged judge ∧ mark w = some m ∧ (liftedBy judge m).isSome ∧ overflows (World.step e w).2 = 0) := by
  cases e with
  | entry m => exact .inl ⟨by rw [World.step, mark_beside (beside_entry m w)]; exact hbefore, Nat.le_refl _⟩
  | take p => exact .inl ⟨by rw [World.step, mark_beside (beside_take p w)]; exact hbefore, (beside_take p w).resets.ge⟩
  | land i => exact .inl ⟨by rw [World.step, mark_beside (beside_land i w)]; exact hbefore, (beside_land i w).resets.ge⟩
  | fail i => exact .inl ⟨by rw [World.step, mark_beside (beside_fail i w)]; exact hbefore, (beside_fail i w).resets.ge⟩
  | settled =>
    rcases settle_cases w with ⟨-, -, heq⟩ | ⟨-, heq⟩ <;> rw [World.step, heq]
    · refine .inl ⟨?_, Nat.le_refl _⟩
      unfold mark
      rw [noteRunEndedWell_state]
      exact hbefore
    · exact .inl ⟨hbefore, Nat.le_refl _⟩
  | overflow judge =>
    refine .inl ⟨?_, Nat.le_refl _⟩
    have hcases := judgeOverflow_cases w.main (hasAnswer (mainMessages w.transcript)) judge.binding judge.now w.row
    dsimp only at hcases
    simp only [World.step, mark]
    rcases hcases with ⟨-, heq⟩ | ⟨hnone, -⟩ | ⟨hnone, -⟩
    · rw [heq]
      exact hbefore
    · rw [mark, hnone] at hbefore
      cases hbefore
    · rw [mark, hnone] at hbefore
      cases hbefore
  | rebuild text now => exact .inl ⟨hbefore, Nat.le_refl _⟩
  | judged judge =>
    rcases liftMark_cases judge w with heq | ⟨m, hm, hlift, heq⟩ <;> rw [World.step, heq]
    · exact .inl ⟨hbefore, Nat.le_refl _⟩
    · exact .inr ⟨Nat.lt_succ_self _, .inr (.inr ⟨judge, m, rfl, hm, hlift, rfl⟩)⟩
  | reset => exact .inr ⟨Nat.lt_succ_self _, .inl rfl⟩
  | freshContext => exact .inr ⟨Nat.lt_succ_self _, .inr (.inl rfl)⟩

theorem resets_step (e : Event) (w : World) : w.resets ≤ (World.step e w).2.resets := by
  cases e with
  | take p => exact (beside_take p w).resets.ge
  | land i => exact (beside_land i w).resets.ge
  | fail i => exact (beside_fail i w).resets.ge
  | settled =>
    rcases settle_cases w with ⟨-, -, heq⟩ | ⟨-, heq⟩ <;> rw [World.step, heq]
  | judged judge =>
    rcases liftMark_cases judge w with heq | ⟨m, -, -, heq⟩ <;> rw [World.step, heq]
    exact Nat.le_succ _
  | reset => exact Nat.le_succ _
  | freshContext => exact Nat.le_succ _
  | _ => exact Nat.le_refl _

theorem main_step (e : Event) (w : World) : w.main ≤ (World.step e w).2.main := by
  cases e with
  | take p => exact (beside_take p w).main.ge
  | land i => exact (beside_land i w).main.ge
  | fail i => exact (beside_fail i w).main.ge
  | settled =>
    rcases settle_cases w with ⟨-, -, heq⟩ | ⟨-, heq⟩ <;> rw [World.step, heq]
  | judged judge =>
    rcases liftMark_cases judge w with heq | ⟨m, -, -, heq⟩ <;> rw [World.step, heq]
  | rebuild text now => exact Nat.le_succ _
  | freshContext => exact Nat.le_succ _
  | _ => exact Nat.le_refl _

/-- The conversation a rebuild started is still awaited, or has had an answer that was no failure. -/
def Awaited (w : World) : Prop := (readBackstop w.row).awaiting = some w.main ∨ ∃ e ∈ w.transcript, e.endsWell = true

theorem awaited_beside {w w' : World} (h : Beside w w') (ha : Awaited w) : Awaited w' := by
  obtain ⟨pending, hrow⟩ := h.row
  rcases ha with ha | ⟨e, he, hwell⟩
  · refine .inl ?_
    rw [hrow, h.main]
    exact ha
  · exact .inr ⟨e, h.transcript e he, hwell⟩

theorem awaited_step (e : Event) (w : World) (ha : Awaited w) (hresets : (World.step e w).2.resets = w.resets)
    (hmain : (World.step e w).2.main = w.main) : Awaited (World.step e w).2 := by
  cases e with
  | entry m => exact awaited_beside (beside_entry m w) ha
  | take p => exact awaited_beside (beside_take p w) ha
  | land i => exact awaited_beside (beside_land i w) ha
  | fail i => exact awaited_beside (beside_fail i w) ha
  | settled =>
    rcases settle_cases w with ⟨-, htip, heq⟩ | ⟨-, heq⟩ <;> rw [World.step, heq]
    · obtain ⟨tip, htip, hwell⟩ := Option.any_eq_true _ _ |>.1 htip
      exact .inr ⟨tip, List.mem_of_getLast? htip, hwell⟩
    · exact ha
  | overflow judge =>
    have hcases := judgeOverflow_cases w.main (hasAnswer (mainMessages w.transcript)) judge.binding judge.now w.row
    dsimp only at hcases
    unfold Awaited
    simp only [World.step]
    rcases hcases with ⟨-, heq⟩ | ⟨-, -, heq⟩ | ⟨-, reason, -, heq⟩ <;> rw [heq] <;> exact ha
  | rebuild text now => exact absurd hmain (Nat.succ_ne_self _)
  | judged judge =>
    have hsame : (liftMark judge w).resets = w.resets := hresets
    rcases liftMark_cases judge w with heq | ⟨m, -, -, heq⟩
    · rw [World.step, heq]
      exact ha
    · rw [heq] at hsame
      exact absurd hsame (Nat.succ_ne_self _)
  | reset => exact absurd hresets (Nat.succ_ne_self _)
  | freshContext => exact absurd hresets (Nat.succ_ne_self _)

theorem no_answer {transcript : List Entry} (h : ∀ e ∈ transcript, e.endsWell = false) :
    hasAnswer (mainMessages transcript) = false := by
  unfold hasAnswer
  rw [List.any_eq_false]
  intro e he
  have hnot := h e (List.mem_of_mem_drop he)
  match e, hnot with
  | .other, _ => exact Bool.false_ne_true
  | .assistant (.error _), _ => exact Bool.false_ne_true

/-- An overflow that starts a rebuild finds no mark, and no rebuilt conversation that has not answered. -/
theorem starts_cases {e : Event} {w : World} (h : startsRebuild (History.turn World.step e w) = true) :
    mark w = none ∧ ((∀ m ∈ w.transcript, m.endsWell = false) → (readBackstop w.row).awaiting ≠ some w.main) := by
  cases e with
  | overflow judge =>
    have hcases := judgeOverflow_cases w.main (hasAnswer (mainMessages w.transcript)) judge.binding judge.now w.row
    dsimp only at hcases
    simp only [startsRebuild, History.turn, World.step] at h
    rcases hcases with ⟨-, heq⟩ | ⟨hnone, hcause, -⟩ | ⟨-, reason, -, heq⟩
    · rw [heq] at h
      cases h
    · refine ⟨hnone, fun hsilent hawaiting => ?_⟩
      rw [stopCause, if_pos ⟨hawaiting, no_answer hsilent⟩] at hcause
      cases hcause
    · rw [heq] at h
      cases h
  | _ => cases h

/-- What a mark set, and a conversation a rebuild started, exclude of the later overflows, until a reset, a fresh context
or a lift. -/
structure Stopped (x y : BackstopTurn) : Prop where
  marked : setsMark x = true → y.before.resets = x.after.resets → startsRebuild y = false
  rebuilt : (∃ text now, x.act = .rebuild text now) → y.before.resets = x.after.resets → y.before.main = x.after.main →
    (∀ e ∈ y.before.transcript, e.endsWell = false) → startsRebuild y = false

theorem stopped_turns (events : List Event) (w : World) : (History.turns World.step events w).Pairwise Stopped := by
  let K : BackstopTurn → World → Prop := fun x s => x.after.resets ≤ s.resets ∧ x.after.main ≤ s.main ∧
    (setsMark x = true → s.resets = x.after.resets → (mark s).isSome) ∧
    ((∃ text now, x.act = .rebuild text now) → s.resets = x.after.resets → s.main = x.after.main → Awaited s)
  refine History.pairwise_turns (K := K) ?_ ?_ ?_
  · refine fun e s => ⟨Nat.le_refl _, Nat.le_refl _, fun h _ => ?_, ?_⟩
    · unfold setsMark at h
      exact (Bool.and_eq_true _ _ ▸ h).2
    · rintro ⟨text, now, hact⟩ - -
      have hact' : e = .rebuild text now := hact
      subst hact'
      exact .inl rfl
  · rintro x e s ⟨hresets, hmain, hmark, hawait⟩
    have hr := resets_step e s
    have hm := main_step e s
    refine ⟨hresets.trans hr, hmain.trans hm, fun h hsame => ?_, fun h hsame hsame' => ?_⟩
    · rcases mark_step e s (hmark h (by omega)) with ⟨hsome, -⟩ | ⟨hlt, -⟩
      · exact hsome
      · omega
    · exact awaited_step e s (hawait h (by omega) (by omega)) (by omega) (by omega)
  · rintro x e s ⟨-, -, hmark, hawait⟩
    refine ⟨fun h hsame => ?_, fun h hsame hsame' hsilent => ?_⟩
    · by_contra hstart
      have hnone := (starts_cases (Bool.not_eq_false _ ▸ hstart)).1
      have hsome := hmark h hsame
      rw [hnone] at hsome
      cases hsome
    · by_contra hstart
      have hnot := (starts_cases (Bool.not_eq_false _ ▸ hstart)).2 hsilent
      rcases hawait h hsame hsame' with hat | ⟨m, hm, hwell⟩
      · exact hnot hat
      · exact Bool.false_ne_true ((hsilent m hm).symm.trans hwell)

/-! ## Where a briefing is -/

def carries (n : Nat) (brief : Option Briefing) : Bool := brief.any fun b => b.rebuild == n

def pending (w : World) : Option Briefing := (readBackstop w.row).pending

/-- How often the briefing of a rebuild is owed, under way or landed. -/
def copies (n : Nat) (w : World) : Nat :=
  (carries n (pending w)).toNat + w.flights.countP (fun f => carries n f.brief) + w.landed.countP fun p => carries n p.brief

/-- What a post says ahead of the briefing it carries, and after it. -/
def Post.head (p : Post) : Str := if p.lines = [] then [] else join (js "\n") p.lines ++ js "\n\n"

def Post.tail (p : Post) : Str := if p.text = [] then [] else js "\n\n---\n\n" ++ p.text

theorem said_brief (p : Post) (b : Briefing) : p.said (some b) = p.head ++ (b.text ++ p.tail) := by
  unfold Post.said Post.body Post.head Post.tail
  dsimp only
  split <;> split <;> simp

@[simp] theorem carries_some (n : Nat) (b : Briefing) : carries n (some b) = (b.rebuild == n) := rfl

@[simp] theorem carries_none (n : Nat) : carries n none = false := rfl

/-- What an event does to the briefings and the posts that hold them. -/
inductive Effect (w w' : World) : Event → Prop
  | still {e : Event} (pending : pending w' = pending w) (flights : w'.flights = w.flights) (landed : w'.landed = w.landed)
      (due : w'.due = w.due) (made : w'.made = w.made) (main : w'.main = w.main) : Effect w w' e
  | rebuilt {text : Str} {now : Int} (pending : pending w' = some ⟨text, w.made + 1, w.main + 1⟩)
      (flights : w'.flights = w.flights) (landed : w'.landed = w.landed) (due : w'.due = some (w.made + 1))
      (made : w'.made = w.made + 1) (main : w'.main = w.main + 1) : Effect w w' (.rebuild text now)
  | cleared {e : Event} (pending : pending w' = none) (flights : w'.flights = w.flights) (landed : w'.landed = w.landed)
      (due : w'.due = none) (made : w'.made = w.made) : Effect w w' e
  | took {post : Post} (taken : pending w' = none) (flights : w'.flights = w.flights ++ [⟨post, pending w⟩])
      (landed : w'.landed = w.landed) (due : w'.due = w.due) (made : w'.made = w.made) (main : w'.main = w.main) :
      Effect w w' (.take post)
  | landed {i : Nat} {f : Flight} (at_ : w.flights[i]? = some f) (pending : pending w' = pending w)
      (flights : w'.flights = w.flights.eraseIdx i)
      (landed : w'.landed = w.landed ++ [⟨w.main, f.brief, f.post.said f.brief⟩]) (due : w'.due = w.due)
      (made : w'.made = w.made) (main : w'.main = w.main) : Effect w w' (.land i)
  | failed {i : Nat} {f : Flight} (at_ : w.flights[i]? = some f) (returned : pending w' = f.brief.or (pending w))
      (flights : w'.flights = w.flights.eraseIdx i) (landed : w'.landed = w.landed) (due : w'.due = w.due)
      (made : w'.made = w.made) (main : w'.main = w.main) : Effect w w' (.fail i)

theorem effect (e : Event) (w : World) : Effect w (World.step e w).2 e := by
  cases e with
  | entry m => exact .still rfl rfl rfl rfl rfl rfl
  | settled =>
    rcases settle_cases w with ⟨-, -, heq⟩ | ⟨-, heq⟩ <;> rw [World.step, heq]
    · refine .still ?_ rfl rfl rfl rfl rfl
      unfold pending
      rw [noteRunEndedWell_state]
    · exact .still rfl rfl rfl rfl rfl rfl
  | overflow judge =>
    have hcases := judgeOverflow_cases w.main (hasAnswer (mainMessages w.transcript)) judge.binding judge.now w.row
    dsimp only at hcases
    refine .still ?_ rfl rfl rfl rfl rfl
    simp only [World.step, pending]
    rcases hcases with ⟨-, heq⟩ | ⟨-, -, heq⟩ | ⟨-, reason, -, heq⟩ <;> rw [heq] <;> rfl
  | rebuild text now => exact .rebuilt rfl rfl rfl rfl rfl rfl
  | judged judge =>
    rcases liftMark_cases judge w with heq | ⟨m, -, -, heq⟩ <;> rw [World.step, heq] <;>
      exact .still rfl rfl rfl rfl rfl rfl
  | reset => exact .cleared rfl rfl rfl rfl rfl
  | freshContext => exact .cleared rfl rfl rfl rfl rfl
  | take post =>
    simp only [World.step, startPost]
    rcases take_cases w.row with ⟨hnone, htake⟩ | ⟨brief, hsome, htake⟩ <;> rw [htake]
    · dsimp only
      split
      · exact .still rfl rfl rfl rfl rfl rfl
      · refine .took hnone ?_ rfl rfl rfl rfl
        rw [pending, hnone]
    · refine .took ?_ ?_ ?_ ?_ ?_ ?_ <;> simp [pending, hsome]
  | land i =>
    simp only [World.step, landPost]
    cases hf : w.flights[i]? with
    | none => exact .still rfl rfl rfl rfl rfl rfl
    | some f => exact .landed hf rfl rfl rfl rfl rfl rfl
  | fail i =>
    simp only [World.step, failPost]
    cases hf : w.flights[i]? with
    | none => exact .still rfl rfl rfl rfl rfl rfl
    | some f =>
      refine .failed hf ?_ rfl rfl rfl rfl rfl
      cases hb : f.brief with
      | none => simp only [pending, hb, Option.none_or]
      | some brief => simp only [pending, hb, returnPendingBriefing, readBackstop_some, Option.some_or]

theorem ite_toNat (b : Bool) : (if b = true then 1 else 0) = b.toNat := by
  cases b <;> rfl

/-- A flight taken out of its list. -/
theorem countP_eraseIdx {A : Type} (p : A → Bool) {l : List A} {i : Nat} {a : A} (h : l[i]? = some a) :
    (l.eraseIdx i).countP p + (p a).toNat = l.countP p := by
  induction l generalizing i with
  | nil => cases h
  | cons x l ih =>
    cases i with
    | zero =>
      cases h
      rw [List.eraseIdx_cons_zero, List.countP_cons, ite_toNat]
    | succ i =>
      have hrest := ih h
      rw [List.eraseIdx_cons_succ, List.countP_cons, List.countP_cons]
      omega

/-- A post that failed puts its briefing in the place of the one that is owed. -/
theorem copies_failed {w w' : World} {i : Nat} {f : Flight} (hf : w.flights[i]? = some f)
    (hreturned : pending w' = f.brief.or (pending w)) (hflights : w'.flights = w.flights.eraseIdx i)
    (hlanded : w'.landed = w.landed) (n : Nat) :
    copies n w' + (if f.brief.isSome then (carries n (pending w)).toNat else 0) = copies n w := by
  have hcount := countP_eraseIdx (fun f => carries n f.brief) hf
  unfold copies
  rw [hreturned, hflights, hlanded]
  cases hb : f.brief with
  | none =>
    simp only [hb, carries_none, Bool.toNat_false] at hcount
    simp only [Option.none_or, Option.isSome_none, Bool.false_eq_true, if_false]
    omega
  | some brief =>
    simp only [hb] at hcount
    simp only [Option.some_or, Option.isSome_some, if_true]
    omega

/-- No briefing is made again but by a rebuild, and that one is new. -/
theorem copies_step {w w' : World} {e : Event} (h : Effect w w' e) (n : Nat) :
    copies n w' ≤ copies n w ∨ n = w.made + 1 ∧ w'.made = w.made + 1 ∧ copies n w' ≤ copies n w + 1 := by
  cases h with
  | still hpending hflights hlanded => exact .inl (by rw [copies, hpending, hflights, hlanded]; exact Nat.le_refl _)
  | cleared hpending hflights hlanded =>
    left
    simp only [copies, hpending, hflights, hlanded, carries_none, Bool.toNat_false]
    omega
  | rebuilt hpending hflights hlanded hdue hmade hmain =>
    unfold copies
    rw [hpending, hflights, hlanded, carries_some]
    cases hn : w.made + 1 == n with
    | true =>
      refine .inr ⟨(beq_iff_eq.1 hn).symm, hmade, ?_⟩
      rw [Bool.toNat_true]
      omega
    | false =>
      rw [Bool.toNat_false]
      exact .inl (by omega)
  | took htaken hflights hlanded =>
    left
    simp only [copies, htaken, hflights, hlanded, List.countP_append, List.countP_singleton, ite_toNat, carries_none,
      Bool.toNat_false]
    omega
  | landed hat hpending hflights hlanded =>
    left
    rename_i i f
    have hcount := countP_eraseIdx (fun f => carries n f.brief) hat
    simp only [copies, hpending, hflights, hlanded, List.countP_append, List.countP_singleton, ite_toNat]
    omega
  | failed hat hreturned hflights hlanded =>
    have hfail := copies_failed hat hreturned hflights hlanded n
    exact .inl (by omega)

/-! ## Carried once -/

/-- What holds of every briefing, whatever posts do. -/
structure Once (w : World) : Prop where
  once : ∀ n, copies n w ≤ 1
  fresh : ∀ n, w.made < n → copies n w = 0
  due : ∀ n, w.due = some n → n ≤ w.made
  said : ∀ p ∈ w.landed, ∀ b, p.brief = some b → ∃ post : Post, p.text = post.head ++ (b.text ++ post.tail)

theorem made_step {w w' : World} {e : Event} (h : Effect w w' e) : w.made ≤ w'.made := by
  cases h with
  | still _ _ _ _ hmade => exact hmade.ge
  | rebuilt _ _ _ _ hmade => omega
  | cleared _ _ _ _ hmade => exact hmade.ge
  | took _ _ _ _ hmade => exact hmade.ge
  | landed _ _ _ _ _ hmade => exact hmade.ge
  | failed _ _ _ _ _ hmade => exact hmade.ge

theorem once_step {w w' : World} {e : Event} (he : Effect w w' e) (h : Once w) : Once w' := by
  have hmade := made_step he
  refine ⟨fun n => ?_, fun n hn => ?_, fun n hn => ?_, fun p hp b hb => ?_⟩
  · rcases copies_step he n with hle | ⟨hn, -, hle⟩
    · exact hle.trans (h.once n)
    · have hzero := h.fresh n (by omega)
      omega
  · rcases copies_step he n with hle | ⟨hn', hmade', -⟩
    · have hzero := h.fresh n (by omega)
      omega
    · omega
  · cases he with
    | still _ _ _ hdue => exact (h.due n (hdue ▸ hn)).trans hmade
    | rebuilt _ _ _ hdue hmade' =>
      rw [hdue] at hn
      cases hn
      exact hmade'.ge
    | cleared _ _ _ hdue =>
      rw [hdue] at hn
      cases hn
    | took _ _ _ hdue => exact (h.due n (hdue ▸ hn)).trans hmade
    | landed _ _ _ _ hdue => exact (h.due n (hdue ▸ hn)).trans hmade
    | failed _ _ _ _ hdue => exact (h.due n (hdue ▸ hn)).trans hmade
  · cases he with
    | still _ _ hlanded => exact h.said p (hlanded ▸ hp) b hb
    | rebuilt _ _ hlanded => exact h.said p (hlanded ▸ hp) b hb
    | cleared _ _ hlanded => exact h.said p (hlanded ▸ hp) b hb
    | took _ _ hlanded => exact h.said p (hlanded ▸ hp) b hb
    | failed _ _ _ hlanded => exact h.said p (hlanded ▸ hp) b hb
    | landed _ _ _ hlanded =>
      rw [hlanded] at hp
      rcases List.mem_append.1 hp with hp | hp
      · exact h.said p hp b hb
      · rw [List.mem_singleton.1 hp] at hb ⊢
        dsimp only at hb ⊢
        rw [hb]
        exact ⟨_, said_brief _ b⟩

/-- A post fails only while the briefing it took is due: no clear and no rebuild came since. -/
def Steady (w : World) : Event → Prop
  | .fail i => ∀ f, w.flights[i]? = some f → ∀ b, f.brief = some b → w.due = some b.rebuild
  | _ => True

/-- The briefing of the latest rebuild, where no post gave back one that was no longer due. -/
structure Carried (w : World) : Prop extends Once w where
  owed : ∀ n, w.due = some n → copies n w = 1
  pending : ∀ b, pending w = some b → w.due = some b.rebuild ∧ b.conversation = w.main
  held : ∀ f ∈ w.flights, ∀ b, f.brief = some b → w.due = some b.rebuild → b.conversation = w.main
  placed : ∀ p ∈ w.landed, ∀ b, p.brief = some b → w.due = some b.rebuild → p.conversation = b.conversation

theorem carries_mem {w : World} {n : Nat} {f : Flight} {b : Briefing} (hf : f ∈ w.flights) (hb : f.brief = some b)
    (hn : b.rebuild = n) : 0 < copies n w := by
  have hpos : 0 < w.flights.countP fun f => carries n f.brief :=
    List.countP_pos_iff.2 ⟨f, hf, by rw [hb, carries_some, hn]; exact beq_self_eq_true n⟩
  unfold copies
  omega

theorem carries_landed {w : World} {n : Nat} {p : Landed} {b : Briefing} (hp : p ∈ w.landed) (hb : p.brief = some b)
    (hn : b.rebuild = n) : 0 < copies n w := by
  have hpos : 0 < w.landed.countP fun p => carries n p.brief :=
    List.countP_pos_iff.2 ⟨p, hp, by rw [hb, carries_some, hn]; exact beq_self_eq_true n⟩
  unfold copies
  omega

theorem carried_empty : Carried World.empty where
  once _ := Nat.zero_le _
  fresh _ _ := rfl
  due _ h := nomatch h
  said _ h := nomatch h
  owed _ h := nomatch h
  pending _ h := nomatch h
  held _ h := nomatch h
  placed _ h := nomatch h

theorem carried_step {w w' : World} {e : Event} (he : Effect w w' e) (h : Carried w) (hsteady : Steady w e) :
    Carried w' := by
  have honce := once_step he h.toOnce
  cases he with
  | still hpending hflights hlanded hdue hmade hmain =>
    refine { honce with owed := ?_, pending := ?_, held := ?_, placed := ?_ }
    · intro n hn
      rw [copies, hpending, hflights, hlanded]
      exact h.owed n (hdue ▸ hn)
    · intro b hb
      rw [hdue, hmain]
      exact h.pending b (hpending ▸ hb)
    · rw [hdue, hmain, hflights]
      exact h.held
    · rw [hdue, hlanded]
      exact h.placed
  | rebuilt hpending hflights hlanded hdue hmade hmain =>
    have hnone := h.fresh (w.made + 1) (Nat.lt_succ_self _)
    refine { honce with owed := ?_, pending := ?_, held := ?_, placed := ?_ }
    · intro n hn
      rw [hdue] at hn
      cases hn
      have hle := honce.once (w.made + 1)
      have hpos : (carries (w.made + 1) (pending w')).toNat = 1 := by
        rw [hpending, carries_some, beq_self_eq_true]
        rfl
      unfold copies at hle ⊢
      omega
    · intro b hb
      rw [hpending] at hb
      cases hb
      exact ⟨hdue, hmain.symm⟩
    · intro f hf b hb hn
      rw [hdue] at hn
      rw [hflights] at hf
      have hpos := carries_mem hf hb (Option.some.inj hn).symm
      omega
    · intro p hp b hb hn
      rw [hdue] at hn
      rw [hlanded] at hp
      have hpos := carries_landed hp hb (Option.some.inj hn).symm
      omega
  | cleared hpending hflights hlanded hdue =>
    refine { honce with owed := ?_, pending := ?_, held := ?_, placed := ?_ }
    · intro n hn
      rw [hdue] at hn
      cases hn
    · intro b hb
      rw [hpending] at hb
      cases hb
    · intro f _ b _ hn
      rw [hdue] at hn
      cases hn
    · intro p _ b _ hn
      rw [hdue] at hn
      cases hn
  | took htaken hflights hlanded hdue hmade hmain =>
    refine { honce with owed := ?_, pending := ?_, held := ?_, placed := ?_ }
    · intro n hn
      have hone := h.owed n (hdue ▸ hn)
      simp only [copies, htaken, hflights, hlanded, List.countP_append, List.countP_singleton, ite_toNat, carries_none,
        Bool.toNat_false]
      unfold copies at hone
      omega
    · intro b hb
      rw [htaken] at hb
      cases hb
    · intro f hf b hb hn
      rw [hflights] at hf
      rw [hmain]
      rcases List.mem_append.1 hf with hf | hf
      · exact h.held f hf b hb (hdue ▸ hn)
      · rw [List.mem_singleton.1 hf] at hb
        exact (h.pending b hb).2
    · rw [hdue, hlanded]
      exact h.placed
  | landed hat hpending hflights hlanded hdue hmade hmain =>
    refine { honce with owed := ?_, pending := ?_, held := ?_, placed := ?_ }
    · intro n hn
      rename_i _ f
      have hone := h.owed n (hdue ▸ hn)
      have hcount := countP_eraseIdx (fun f => carries n f.brief) hat
      simp only [copies, hpending, hflights, hlanded, List.countP_append, List.countP_singleton, ite_toNat]
      unfold copies at hone
      omega
    · intro b hb
      rw [hdue, hmain]
      exact h.pending b (hpending ▸ hb)
    · intro f hf b hb hn
      rw [hflights] at hf
      rw [hmain]
      exact h.held f (List.mem_of_mem_eraseIdx hf) b hb (hdue ▸ hn)
    · intro p hp b hb hn
      rw [hlanded] at hp
      rcases List.mem_append.1 hp with hp | hp
      · exact h.placed p hp b hb (hdue ▸ hn)
      · rw [List.mem_singleton.1 hp] at hb ⊢
        exact (h.held _ (List.mem_of_getElem? hat) b hb (hdue ▸ hn)).symm
  | failed hat hreturned hflights hlanded hdue hmade hmain =>
    have hfail := copies_failed hat hreturned hflights hlanded
    rename_i i f
    -- What a post gives back is what is due, so nothing else was owed in its place.
    have hvacant : ∀ n, w.due = some n → f.brief.isSome → (carries n (pending w)).toNat = 0 := by
      intro n hn hsome
      obtain ⟨b, hb⟩ := Option.isSome_iff_exists.1 hsome
      have hdue' := hsteady f hat b hb
      have hone := h.owed n hn
      rw [hdue'] at hn
      cases hn
      have hpos : 0 < w.flights.countP fun f => carries b.rebuild f.brief :=
        List.countP_pos_iff.2 ⟨f, List.mem_of_getElem? hat, by rw [hb, carries_some]; exact beq_self_eq_true _⟩
      unfold copies at hone
      omega
    refine { honce with owed := ?_, pending := ?_, held := ?_, placed := ?_ }
    · intro n hn
      have hone := h.owed n (hdue ▸ hn)
      have heq := hfail n
      split at heq
      · rename_i hsome
        rw [hvacant n (hdue ▸ hn) hsome] at heq
        omega
      · omega
    · intro b hb
      rw [hdue, hmain]
      rw [hreturned] at hb
      cases hbrief : f.brief with
      | none =>
        rw [hbrief] at hb
        exact h.pending b hb
      | some brief =>
        rw [hbrief] at hb
        cases hb
        have hdue' := hsteady f hat _ hbrief
        exact ⟨hdue', h.held f (List.mem_of_getElem? hat) _ hbrief hdue'⟩
    · intro g hg b hb hn
      rw [hflights] at hg
      rw [hmain]
      exact h.held g (List.mem_of_mem_eraseIdx hg) b hb (hdue ▸ hn)
    · rw [hdue, hlanded]
      exact h.placed

/-- The event takes the briefing that is owed away: a clear, or another rebuild in its place. -/
def Retires (e : Event) : Prop := e = .reset ∨ e = .freshContext ∨ ∃ text now, e = .rebuild text now

/-- A briefing cleared or replaced while it was owed is in no post of the turns after. -/
def Retired (x y : BackstopTurn) : Prop :=
  ∀ b, pending x.before = some b → Once x.before → Retires x.act → ∀ p ∈ y.after.landed, carries b.rebuild p.brief = false

theorem retired_turns (events : List Event) (w : World) : (History.turns World.step events w).Pairwise Retired := by
  let K : BackstopTurn → World → Prop := fun x s =>
    ∀ b, pending x.before = some b → Once x.before → Retires x.act → b.rebuild ≤ s.made ∧ copies b.rebuild s = 0
  have hgone : ∀ (e : Event) (s : World) (n : Nat), n ≤ s.made → copies n s = 0 → copies n (World.step e s).2 = 0 := by
    intro e s n hle hzero
    rcases copies_step (effect e s) n with hstep | ⟨hn, -, -⟩ <;> omega
  refine History.pairwise_turns (K := K) ?_ ?_ ?_
  · intro e s b hb honce hact
    have hone := honce.once b.rebuild
    have hb' : (carries b.rebuild (pending s)).toNat = 1 := by
      rw [show pending s = some b from hb, carries_some, beq_self_eq_true]
      rfl
    have hmade : b.rebuild ≤ s.made := by
      by_contra hlt
      have hzero := honce.fresh b.rebuild (by exact not_le.1 hlt)
      have hzero' : copies b.rebuild s = 0 := hzero
      unfold copies at hzero'
      omega
    have hone' : copies b.rebuild s ≤ 1 := hone
    refine ⟨hmade.trans (made_step (effect e s)), ?_⟩
    have heffect := effect e s
    unfold copies at hone' ⊢
    rcases hact with hact | hact | ⟨text, now, hact⟩
    all_goals
      have hact' : e = _ := hact
      subst hact'
    · have hnone : pending (World.step .reset s).2 = none := rfl
      rw [hnone]
      simp only [World.step, cleared, carries_none, Bool.toNat_false]
      omega
    · have hnone : pending (World.step .freshContext s).2 = none := rfl
      rw [hnone]
      simp only [World.step, cleared, carries_none, Bool.toNat_false]
      omega
    · have hnew : pending (World.step (.rebuild text now) s).2 = some ⟨text, s.made + 1, s.main + 1⟩ := rfl
      have hother : (s.made + 1 == b.rebuild) = false := beq_false_of_ne (by omega)
      rw [hnew, carries_some, hother]
      simp only [World.step, rebuildContext, Bool.toNat_false]
      omega
  · intro x e s hK b hb honce hact
    obtain ⟨hle, hzero⟩ := hK b hb honce hact
    exact ⟨hle.trans (made_step (effect e s)), hgone e s b.rebuild hle hzero⟩
  · intro x e s hK b hb honce hact p hp
    obtain ⟨hle, hzero⟩ := hK b hb honce hact
    have hafter : copies b.rebuild (World.step e s).2 = 0 := hgone e s b.rebuild hle hzero
    have hnone : ((World.step e s).2.landed.countP fun p => carries b.rebuild p.brief) = 0 := by
      unfold copies at hafter
      omega
    exact Bool.eq_false_iff.2 (List.countP_eq_zero.1 hnone p hp)

theorem once_run (events : List Event) : ∀ x ∈ History.turns World.step events World.empty, Once x.before :=
  History.forall_turns (I := Once) carried_empty.toOnce (fun e s h => once_step (effect e s) h) fun _ _ h => h

/-- A post of an agent that has nothing to say but the briefing. -/
def briefingPost : Post := ⟨[], [], .prompt, true⟩

/-- A reset while the post that took the briefing is under way, which then fails. -/
def resetUnderPost : List Event :=
  [.rebuild (js "history") 0, .take briefingPost, .reset, .fail 0, .take briefingPost, .land 0]

/-- A rebuilt conversation that overflows without an answer, is marked, and overflows again a day later. -/
def overflowsAgain : List Event :=
  [.rebuild (js "history") 0, .take briefingPost, .land 0, .overflow ⟨"m", 1⟩, .judged ⟨"m", 1 + NEEDS_RESET_TTL_MS⟩,
    .overflow ⟨"m", 1 + NEEDS_RESET_TTL_MS⟩]

end Antiproton.Overflow
