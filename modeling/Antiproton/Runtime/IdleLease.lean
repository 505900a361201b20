import Mathlib.Algebra.Order.Ring.Unbundled.Rat
import Mathlib.Algebra.Order.Field.Rat
import Mathlib.Data.Rat.Cast.Order
import Mathlib.Tactic.Linarith

/-!
# Antiproton.Runtime.IdleLease

When an idle held thing is released, and when its agent is told first (`src/runtime/idle-lease.ts`): a schedule over one
instant and one postponement.

* `decision_cases`: what is decided at every instant, and the wake that is asked for.
* `scheduleOf_usable`, `scheduleOf_unusable`: a number is taken from the thing where it is one, else the deployment's.
* `not_released_at_once`: a thing is never released at the instant it was used.
-/

namespace Antiproton.IdleLease

/-! ## The schedule -/

/-- A number of the language. -/
inductive JsNumber where
  | finite (q : ℚ)
  | infinite (negative : Bool)
  | nan
deriving DecidableEq

/-- What a plugin reports in the place of a number. -/
inductive Reported where
  | number (n : JsNumber)
  | other
deriving DecidableEq

structure HeldLease where
  maxMs : Option Reported
  warnMs : Option Reported
deriving DecidableEq

structure Schedule where
  warnMs : ℚ
  maxMs : ℚ
deriving DecidableEq

/-- `ok(v, min)`, with the number it found. -/
def usable (v : Option Reported) (least : ℚ) : Option ℚ :=
  match v with
  | some (.number (.finite q)) => if least ≤ q then some q else none
  | _ => none

def scheduleOf (lease : Option HeldLease) (deployment : Schedule) : Schedule :=
  ⟨(usable (lease.bind (·.warnMs)) 0).getD deployment.warnMs, (usable (lease.bind (·.maxMs)) 1).getD deployment.maxMs⟩

theorem usable_some {v : Option Reported} {least q : ℚ} (h : usable v least = some q) :
    v = some (.number (.finite q)) ∧ least ≤ q := by
  unfold usable at h
  split at h
  · split at h
    · next hle =>
      cases h
      exact ⟨rfl, hle⟩
    · cases h
  · cases h

theorem usable_none {v : Option Reported} {least : ℚ} (h : ∀ q, v = some (.number (.finite q)) → q < least) :
    usable v least = none := by
  cases hv : usable v least with
  | none => rfl
  | some q =>
    obtain ⟨hq, hle⟩ := usable_some hv
    exact absurd (h q hq) (not_lt_of_ge hle)

section Schedules

variable {lease : Option HeldLease} {deployment : Schedule}

theorem scheduleOf_usable :
    (∀ q, usable (lease.bind (·.maxMs)) 1 = some q → (scheduleOf lease deployment).maxMs = q) ∧
      ∀ q, usable (lease.bind (·.warnMs)) 0 = some q → (scheduleOf lease deployment).warnMs = q := by
  refine ⟨fun q h => ?_, fun q h => ?_⟩
  · simp only [scheduleOf, h, Option.getD_some]
  · simp only [scheduleOf, h, Option.getD_some]

theorem scheduleOf_unusable :
    (usable (lease.bind (·.maxMs)) 1 = none → (scheduleOf lease deployment).maxMs = deployment.maxMs) ∧
      (usable (lease.bind (·.warnMs)) 0 = none → (scheduleOf lease deployment).warnMs = deployment.warnMs) := by
  refine ⟨fun h => ?_, fun h => ?_⟩
  · simp only [scheduleOf, h, Option.getD_none]
  · simp only [scheduleOf, h, Option.getD_none]

theorem scheduleOf_positive (h : 0 < deployment.maxMs) : 0 < (scheduleOf lease deployment).maxMs := by
  cases hq : usable (lease.bind (·.maxMs)) 1 with
  | none => rwa [scheduleOf_unusable.1 hq]
  | some q =>
    have hle := (usable_some hq).2
    rw [scheduleOf_usable.1 q hq]
    linarith

end Schedules

/-! ## The decision -/

inductive IdleAction where
  | release (idleMs : ℚ)
  | warn (releaseAt idleMs untilReleaseMs wakeInMs : ℚ)
  | wait (wakeInMs : ℚ)
deriving DecidableEq

structure IdleInput where
  lastUsedAt : ℚ
  postponedUntil : Option ℚ
  warnedFor : ℚ
  now : ℚ
  warnMs : ℚ
  maxMs : ℚ

/-- When it goes: the idle ceiling, or the agent's postponement if that is later. -/
def releaseAt (lastUsedAt : ℚ) (postponedUntil : Option ℚ) (maxMs : ℚ) : ℚ :=
  max (lastUsedAt + maxMs) (postponedUntil.getD 0)

def idleDecision (i : IdleInput) : IdleAction :=
  let due := releaseAt i.lastUsedAt i.postponedUntil i.maxMs
  let idleMs := i.now - i.lastUsedAt
  if due ≤ i.now then .release idleMs
  else if i.warnedFor = due then .wait (max 1 (due - i.now))
  else
    let warnAt := due - max 0 i.warnMs
    if 0 < i.warnMs ∧ warnAt ≤ i.now then .warn due idleMs (due - i.now) 0
    else .wait (max 1 ((if 0 < i.warnMs then warnAt else due) - i.now))

structure Live where
  lastUsedAt : ℚ
  lease : Option HeldLease
deriving DecidableEq

/-- The decision for one held thing, on its own schedule where it reports one. -/
def heldDecision (live : Live) (postponedUntil : Option ℚ) (warnedFor now : ℚ) (deployment : Schedule) : IdleAction :=
  let s := scheduleOf live.lease deployment
  idleDecision ⟨live.lastUsedAt, postponedUntil, warnedFor, now, s.warnMs, s.maxMs⟩

/-- What a decision is, by the instant it is taken at. -/
inductive Decided (due warnMs warnedFor now : ℚ) : IdleAction → Prop where
  | release (idleMs : ℚ) (h : due ≤ now) : Decided due warnMs warnedFor now (.release idleMs)
  | told (h : now < due) (hw : warnedFor = due) : Decided due warnMs warnedFor now (.wait (max 1 (due - now)))
  | warn (idleMs : ℚ) (h : now < due) (hw : warnedFor ≠ due) (hpos : 0 < warnMs) (hat : due - warnMs ≤ now) :
    Decided due warnMs warnedFor now (.warn due idleMs (due - now) 0)
  | early (h : now < due) (hw : warnedFor ≠ due) (hpos : 0 < warnMs) (hat : now < due - warnMs) :
    Decided due warnMs warnedFor now (.wait (max 1 (due - warnMs - now)))
  | silent (h : now < due) (hw : warnedFor ≠ due) (hnone : ¬0 < warnMs) :
    Decided due warnMs warnedFor now (.wait (max 1 (due - now)))

theorem decision_cases (i : IdleInput) :
    Decided (releaseAt i.lastUsedAt i.postponedUntil i.maxMs) i.warnMs i.warnedFor i.now (idleDecision i) := by
  unfold idleDecision
  dsimp only
  split
  · next h => exact .release _ h
  · next h =>
    have hlt := lt_of_not_ge h
    split
    · next hw => exact .told hlt hw
    · next hw =>
      by_cases hpos : 0 < i.warnMs
      · rw [max_eq_right hpos.le]
        split
        · next hwarn => exact .warn _ hlt hw hpos hwarn.2
        · next hwarn => exact .early hlt hw hpos (lt_of_not_ge fun hle => hwarn ⟨hpos, hle⟩)
      · rw [if_neg fun h => hpos h.1, if_neg hpos]
        exact .silent hlt hw hpos

theorem held_cases (live : Live) (postponedUntil : Option ℚ) (warnedFor now : ℚ) (deployment : Schedule) :
    Decided (releaseAt live.lastUsedAt postponedUntil (scheduleOf live.lease deployment).maxMs)
      (scheduleOf live.lease deployment).warnMs warnedFor now (heldDecision live postponedUntil warnedFor now deployment) :=
  decision_cases ⟨live.lastUsedAt, postponedUntil, warnedFor, now, (scheduleOf live.lease deployment).warnMs,
    (scheduleOf live.lease deployment).maxMs⟩

theorem used_le_releaseAt (lastUsedAt : ℚ) (postponedUntil : Option ℚ) (maxMs : ℚ) :
    lastUsedAt + maxMs ≤ releaseAt lastUsedAt postponedUntil maxMs := le_max_left _ _

/-- A thing is not released at the instant it was used, nor before. -/
theorem not_released_at_once {live : Live} {postponedUntil : Option ℚ} {warnedFor now : ℚ} {deployment : Schedule}
    (hd : 0 < deployment.maxMs) (hnow : now ≤ live.lastUsedAt) (idleMs : ℚ) :
    heldDecision live postponedUntil warnedFor now deployment ≠ .release idleMs := by
  intro h
  have hcases := held_cases live postponedUntil warnedFor now deployment
  rw [h] at hcases
  cases hcases with
  | release _ hdue =>
    have hmax := @scheduleOf_positive live.lease deployment hd
    have hused := used_le_releaseAt live.lastUsedAt postponedUntil (scheduleOf live.lease deployment).maxMs
    linarith

end Antiproton.IdleLease
