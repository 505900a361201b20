import Antiproton.Lib.History
import Antiproton.Runtime.IdleLease

/-!
# Antiproton.Runtime.IdlePass

One held thing through any history of uses, postponements and idle passes (`#idlePass`, `cf/src/runtime.ts`). The object
keeps the release time its agent was told of last, and when to try again what refused to go.

* `pass_cases`: all that one pass can do with the thing.
* `step_sound`: a step keeps the row the object has of its warnings true of the warnings it sent.
* `announced_run`: a release is announced, if some wake was asked for before the release time.
-/

namespace Antiproton.IdleLease

open History

/-- The retry schedule: doubling with each failure, from 5 minutes to 6 hours. -/
def releaseRetryMs (failures : Nat) : Nat := min (5 * 60000 * 2 ^ (failures - 1)) (6 * 3600000)

theorem releaseRetryMs_pos (failures : Nat) : 1 ≤ releaseRetryMs failures := by
  have hpow : 0 < 2 ^ (failures - 1) := Nat.pow_pos Nat.two_pos
  unfold releaseRetryMs
  omega

/-! ## The pass -/

/-- A row of `release_retry`. -/
structure ReleaseRetry where
  nextAt : Nat
  failures : Nat
deriving DecidableEq

/-- A held thing as its plugin reports it, with the object's rows about it in `held_warnings` and `release_retry`. -/
structure Thing where
  live : Live
  quietUntil : Option ℚ
  warned : Option ℚ
  retry : Option ReleaseRetry
deriving DecidableEq

def Thing.schedule (t : Thing) (deployment : Schedule) : Schedule := scheduleOf t.live.lease deployment

def Thing.due (t : Thing) (deployment : Schedule) : ℚ :=
  releaseAt t.live.lastUsedAt t.quietUntil (t.schedule deployment).maxMs

/-- What the plugin answers to a release, and when; a thing released may be held in another state. -/
inductive ReleaseAnswer where
  | failed (clock : Nat)
  | released (clock : Nat) (after : Option Live)
deriving DecidableEq

def ReleaseAnswer.clock : ReleaseAnswer → Nat
  | .failed clock => clock
  | .released clock _ => clock

inductive Did where
  | waited | warned (releaseAt : ℚ) | putOff | failed | released
deriving DecidableEq

/-- The release was asked for. -/
def Did.tried : Did → Bool
  | .failed | .released => true
  | _ => false

/-- What a pass did with the thing, the wake it asked for, and when it was done. -/
structure Passed where
  did : Did
  wakeInMs : Option ℚ
  clock : Nat
deriving DecidableEq

def IdleAction.wakeInMs : IdleAction → Option ℚ
  | .release _ => none
  | .warn _ _ _ wakeInMs => some wakeInMs
  | .wait wakeInMs => some wakeInMs

section Pass

variable (deployment : Schedule)

/-- `releaseTask`, and what follows its answer. -/
def releaseHeld (answer : ReleaseAnswer) (t : Thing) : Passed × Option Thing :=
  match answer with
  | .failed clock =>
    let failures := (t.retry.elim 0 (·.failures)) + 1
    let nextAt := clock + releaseRetryMs failures
    (⟨.failed, some ((nextAt : ℚ) - clock), clock⟩, some { t with retry := some ⟨nextAt, failures⟩ })
  | .released clock after =>
    (⟨.released, after.bind fun live => (heldDecision live none 0 clock deployment).wakeInMs, clock⟩, none)

def passHeld (now : Nat) (answer : ReleaseAnswer) (t : Thing) : Passed × Option Thing :=
  match heldDecision t.live t.quietUntil (t.warned.getD 0) now deployment with
  | .wait wakeInMs => (⟨.waited, some wakeInMs, now⟩, some t)
  | .warn due _ _ wakeInMs => (⟨.warned due, some wakeInMs, now⟩, some { t with warned := some due })
  | .release _ =>
    match t.retry.filter fun r => now < r.nextAt with
    | some r => (⟨.putOff, some ((r.nextAt : ℚ) - now), now⟩, some t)
    | none => releaseHeld deployment answer t

/-- All that one pass can do with the thing. -/
inductive Pass (now : Nat) (answer : ReleaseAnswer) (t : Thing) : Passed × Option Thing → Prop where
  | told (h : (now : ℚ) < t.due deployment) (hw : t.warned.getD 0 = t.due deployment) :
    Pass now answer t (⟨.waited, some (max 1 (t.due deployment - now)), now⟩, some t)
  | warn (h : (now : ℚ) < t.due deployment) (hw : t.warned.getD 0 ≠ t.due deployment)
    (hpos : 0 < (t.schedule deployment).warnMs) (hat : t.due deployment - (t.schedule deployment).warnMs ≤ now) :
    Pass now answer t (⟨.warned (t.due deployment), some 0, now⟩, some { t with warned := some (t.due deployment) })
  | early (h : (now : ℚ) < t.due deployment) (hw : t.warned.getD 0 ≠ t.due deployment)
    (hpos : 0 < (t.schedule deployment).warnMs) (hat : now < t.due deployment - (t.schedule deployment).warnMs) :
    Pass now answer t (⟨.waited, some (max 1 (t.due deployment - (t.schedule deployment).warnMs - now)), now⟩, some t)
  | silent (h : (now : ℚ) < t.due deployment) (hw : t.warned.getD 0 ≠ t.due deployment)
    (hnone : ¬0 < (t.schedule deployment).warnMs) :
    Pass now answer t (⟨.waited, some (max 1 (t.due deployment - now)), now⟩, some t)
  | putOff (h : t.due deployment ≤ now) (r : ReleaseRetry) (hr : t.retry = some r) (hlt : now < r.nextAt) :
    Pass now answer t (⟨.putOff, some ((r.nextAt : ℚ) - now), now⟩, some t)
  | failed (h : t.due deployment ≤ now) (clock failures : Nat) (ha : answer = .failed clock) :
    Pass now answer t (⟨.failed, some (((clock + releaseRetryMs failures : Nat) : ℚ) - clock), clock⟩,
      some { t with retry := some ⟨clock + releaseRetryMs failures, failures⟩ })
  | released (h : t.due deployment ≤ now) (clock : Nat) (after : Option Live) (ha : answer = .released clock after) :
    Pass now answer t
      (⟨.released, after.bind fun live => (heldDecision live none 0 clock deployment).wakeInMs, clock⟩, none)

theorem release_cases {now : Nat} {answer : ReleaseAnswer} {t : Thing} (h : t.due deployment ≤ now) :
    Pass deployment now answer t (releaseHeld deployment answer t) := by
  cases answer with
  | failed clock => exact .failed h clock _ rfl
  | released clock after => exact .released h clock after rfl

theorem pass_cases (now : Nat) (answer : ReleaseAnswer) (t : Thing) :
    Pass deployment now answer t (passHeld deployment now answer t) := by
  have hcases := held_cases t.live t.quietUntil (t.warned.getD 0) now deployment
  unfold passHeld
  cases hd : heldDecision t.live t.quietUntil (t.warned.getD 0) now deployment with
  | wait wakeInMs =>
    rw [hd] at hcases
    cases hcases with
    | told h hw => exact .told h hw
    | early h hw hpos hat => exact .early h hw hpos hat
    | silent h hw hnone => exact .silent h hw hnone
  | warn due idleMs untilReleaseMs wakeInMs =>
    rw [hd] at hcases
    cases hcases with
    | warn _ h hw hpos hat => exact .warn h hw hpos hat
  | release idleMs =>
    rw [hd] at hcases
    cases hcases with
    | release _ h =>
      dsimp only
      cases hr : t.retry.filter fun r => now < r.nextAt with
      | none => exact release_cases deployment h
      | some r =>
        obtain ⟨hr, hlt⟩ := Option.filter_eq_some_iff.1 hr
        exact .putOff h r hr (of_decide_eq_true hlt)

end Pass

/-! ## Histories -/

/-- A warning recorded as given, and the instant of the pass that gave it. -/
structure Warning where
  releaseAt : ℚ
  sentAt : ℚ
deriving DecidableEq

/-- The thing while it is held, when the last pass was done, the wake it asked for, and every warning so far. -/
structure World where
  thing : Option Thing
  last : Nat
  wake : Option ℚ
  told : List Warning
deriving DecidableEq

inductive Event where
  | use (instant : ℚ)
  | postpone (instant : ℚ)
  | pass (now : Nat) (answer : ReleaseAnswer)
deriving DecidableEq

def warningOf (now : Nat) : Did → List Warning
  | .warned due => [⟨due, now⟩]
  | _ => []

def exec (deployment : Schedule) (e : Event) (w : World) : Option Passed × World :=
  match w.thing with
  | none => (none, w)
  | some t =>
    match e with
    | .use instant => (none, { w with thing := some { t with live := { t.live with lastUsedAt := instant } } })
    | .postpone instant => (none, { w with thing := some { t with quietUntil := some instant } })
    | .pass now answer =>
      let r := passHeld deployment now answer t
      (some r.1, ⟨r.2, r.1.clock, r.1.wakeInMs.map fun ms => r.1.clock + ms, w.told ++ warningOf now r.1.did⟩)

/-- A thing newly held. -/
def newlyHeld (live : Live) : World := ⟨some ⟨live, none, none, none⟩, 0, none, []⟩

/-- Uses and postponements each later than the one before; a pass no earlier than the one before, and no later than the
wake that one asked for. -/
def InOrder (w : World) : Event → Prop
  | .use instant => ∀ t ∈ w.thing, t.live.lastUsedAt ≤ instant
  | .postpone instant => ∀ t ∈ w.thing, t.quietUntil.getD 0 < instant
  | .pass now answer => w.last ≤ now ∧ (∀ wake ∈ w.wake, (now : ℚ) ≤ wake) ∧ now ≤ answer.clock

/-- The row of the object is its last warning, and each warning was for an earlier release time, or is for this one. -/
structure Warned (deployment : Schedule) (told : List Warning) (t : Thing) : Prop where
  row : t.warned = told.getLast?.map (·.releaseAt)
  past : ∀ m ∈ told, m.releaseAt ≤ t.due deployment
  positive : 0 < t.due deployment

/-- What holds of the warnings of every history. -/
structure Sound (deployment : Schedule) (w : World) : Prop where
  ascending : w.told.Pairwise fun a b => a.releaseAt < b.releaseAt
  ahead : ∀ m ∈ w.told, 0 < m.releaseAt ∧ m.sentAt < m.releaseAt
  warned : ∀ t ∈ w.thing, Warned deployment w.told t

section Sound

variable {deployment : Schedule}

/-- The agent was told of this release time if the row says so. -/
theorem told_iff {w : World} {t : Thing} (h : Sound deployment w) (ht : w.thing = some t) :
    t.warned.getD 0 = t.due deployment ↔ ∃ m ∈ w.told, m.releaseAt = t.due deployment := by
  obtain ⟨hrow, hpast, hpos⟩ := h.warned t ht
  rcases List.eq_nil_or_concat w.told with hnil | ⟨earlier, m, hm⟩
  · rw [hrow, hnil]
    exact iff_of_false (ne_of_lt hpos) (by rintro ⟨m, hm, -⟩; cases hm)
  · have hlast : t.warned.getD 0 = m.releaseAt := by
      rw [hrow, hm, List.concat_eq_append, List.getLast?_append]
      rfl
    have hmem : m ∈ w.told := by
      rw [hm, List.concat_eq_append]
      exact List.mem_append_right _ (List.mem_singleton.2 rfl)
    rw [hlast]
    constructor
    · exact fun heq => ⟨m, hmem, heq⟩
    · rintro ⟨m', hm', heq⟩
      have hle := hpast m hmem
      have hsorted := h.ascending
      rw [hm, List.concat_eq_append] at hsorted hm'
      rcases List.mem_append.1 hm' with hearlier | hsame
      · have hlt := (List.pairwise_append.1 hsorted).2.2 m' hearlier m (List.mem_singleton.2 rfl)
        linarith
      · rw [List.mem_singleton.1 hsame] at heq
        exact heq

theorem due_mono {t : Thing} {i : ℚ} (h : t.live.lastUsedAt ≤ i) :
    t.due deployment ≤ { t with live := { t.live with lastUsedAt := i } : Thing }.due deployment := by
  refine max_le_max ?_ (le_refl _)
  change t.live.lastUsedAt + _ ≤ i + _
  exact (add_le_add_iff_right _).2 h

theorem due_postponed {t : Thing} {i : ℚ} (h : t.quietUntil.getD 0 < i) :
    t.due deployment ≤ { t with quietUntil := some i : Thing }.due deployment :=
  max_le_max (le_refl _) h.le

/-- A release time that moves only forward leaves the warnings what they were. -/
theorem Warned.moved {told : List Warning} {t t' : Thing} (h : Warned deployment told t) (hrow : t'.warned = t.warned)
    (hdue : t.due deployment ≤ t'.due deployment) : Warned deployment told t' :=
  ⟨hrow.trans h.row, fun m hm => (h.past m hm).trans hdue, lt_of_lt_of_le h.positive hdue⟩

theorem pass_sound {w : World} {t : Thing} {now : Nat} {answer : ReleaseAnswer} {r : Passed × Option Thing}
    (h : Sound deployment w) (ht : w.thing = some t) (hr : Pass deployment now answer t r) :
    Sound deployment ⟨r.2, r.1.clock, r.1.wakeInMs.map fun ms => r.1.clock + ms, w.told ++ warningOf now r.1.did⟩ := by
  have hsame : ∀ t', t'.warned = t.warned → t'.due deployment = t.due deployment → Warned deployment w.told t' :=
    fun t' hrow hdue => (h.warned t ht).moved hrow hdue.ge
  have hquiet : ∀ thing clock wake, (∀ t' ∈ thing, Warned deployment w.told t') →
      Sound deployment ⟨thing, clock, wake, w.told ++ []⟩ := by
    intro thing clock wake hthing
    rw [List.append_nil]
    exact ⟨h.ascending, h.ahead, hthing⟩
  cases hr with
  | told | early | silent | putOff =>
    refine hquiet _ _ _ fun t' ht' => hsame t' ?_ ?_
    · rw [← Option.some.inj ht']
    · rw [← Option.some.inj ht']
  | failed hdue clock failures ha =>
    refine hquiet _ _ _ fun t' ht' => hsame t' ?_ ?_
    · rw [← Option.some.inj ht']
    · rw [← Option.some.inj ht']
      rfl
  | released => exact hquiet _ _ _ fun t' ht' => nomatch ht'
  | warn hlt hw hpos hat =>
    have hnew : ∀ m ∈ w.told, m.releaseAt < t.due deployment := fun m hm =>
      lt_of_le_of_ne ((h.warned t ht).past m hm) fun heq => hw ((told_iff h ht).2 ⟨m, hm, heq⟩)
    refine ⟨?_, ?_, ?_⟩
    · refine List.pairwise_append.2 ⟨h.ascending, List.pairwise_singleton .., fun a ha b hb => ?_⟩
      rw [List.mem_singleton.1 hb]
      exact hnew a ha
    · intro m hm
      rcases List.mem_append.1 hm with hm | hm
      · exact h.ahead m hm
      · rw [List.mem_singleton.1 hm]
        exact ⟨(h.warned t ht).positive, hlt⟩
    · intro t' ht'
      rw [← Option.some.inj ht']
      refine ⟨?_, fun m hm => ?_, (h.warned t ht).positive⟩
      · rw [warningOf, List.getLast?_append]
        rfl
      · rcases List.mem_append.1 hm with hm | hm
        · exact (hnew m hm).le
        · rw [List.mem_singleton.1 hm]
          exact le_refl _

theorem step_sound (e : Event) (w : World) (h : Sound deployment w) (hok : InOrder w e) :
    Sound deployment (exec deployment e w).2 := by
  unfold exec
  cases ht : w.thing with
  | none => exact h
  | some t =>
    cases e with
    | use instant =>
      refine ⟨h.ascending, h.ahead, fun t' ht' => ?_⟩
      rw [← Option.some.inj ht']
      exact (h.warned t ht).moved rfl (due_mono (hok t ht))
    | postpone instant =>
      refine ⟨h.ascending, h.ahead, fun t' ht' => ?_⟩
      rw [← Option.some.inj ht']
      exact (h.warned t ht).moved rfl (due_postponed (hok t ht))
    | pass now answer => exact pass_sound h ht (pass_cases deployment now answer t)

theorem newlyHeld_sound {live : Live} (hd : 0 < deployment.maxMs) (hlive : 0 ≤ live.lastUsedAt) :
    Sound deployment (newlyHeld live) := by
  refine ⟨.nil, (fun m hm => nomatch hm), fun t ht => ?_⟩
  rw [← Option.some.inj ht]
  refine ⟨rfl, (fun m hm => nomatch hm), ?_⟩
  have hmax := @scheduleOf_positive live.lease deployment hd
  have hused := used_le_releaseAt live.lastUsedAt none (scheduleOf live.lease deployment).maxMs
  change 0 < releaseAt live.lastUsedAt none (scheduleOf live.lease deployment).maxMs
  linarith

end Sound

/-! ## What the schedule keeps -/

/-- A thing whose warning is due as soon as it is looked at. -/
def WarningDue (deployment : Schedule) (live : Live) (now : Nat) : Prop :=
  0 < (scheduleOf live.lease deployment).warnMs ∧ releaseAt live.lastUsedAt none (scheduleOf live.lease deployment).maxMs -
    (scheduleOf live.lease deployment).warnMs ≤ now

/-- What one pass keeps to, in the world it finds. -/
structure PassLaws (deployment : Schedule) (w : World) (t : Thing) (now : Nat) (answer : ReleaseAnswer) (p : Passed) :
    Prop where
  notEarly : p.did.tried = true → t.due deployment ≤ now
  warns : ∀ due, p.did = .warned due → due = t.due deployment ∧ (now : ℚ) < due ∧ 0 < (t.schedule deployment).warnMs ∧
    ∀ m ∈ w.told, m.releaseAt ≠ due
  own : 0 < (t.schedule deployment).warnMs → t.due deployment - (t.schedule deployment).warnMs ≤ now →
    (now : ℚ) < t.due deployment → (∀ m ∈ w.told, m.releaseAt ≠ t.due deployment) → p.did = .warned (t.due deployment)
  wakes : ∀ ms ∈ p.wakeInMs, 1 ≤ ms ∨ (∃ due, p.did = .warned due) ∨
    ∃ clock live, answer = .released clock (some live) ∧ WarningDue deployment live clock

section Laws

variable {deployment : Schedule}

theorem one_le_sub {a b : Nat} (h : a < b) : (1 : ℚ) ≤ (b : ℚ) - a := by
  have hle : ((a + 1 : Nat) : ℚ) ≤ (b : ℚ) := Nat.cast_le.2 h
  push_cast at hle
  linarith

theorem after_wakes {live : Live} {clock : Nat} {ms : ℚ} (h : (heldDecision live none 0 clock deployment).wakeInMs = some ms) :
    1 ≤ ms ∨ WarningDue deployment live clock := by
  have hcases := held_cases live none 0 clock deployment
  generalize heldDecision live none 0 clock deployment = d at h hcases
  cases hcases with
  | release => cases h
  | told | early | silent =>
    cases h
    exact .inl (le_max_left _ _)
  | warn _ _ _ hpos hat => exact .inr ⟨hpos, hat⟩

theorem pass_laws {w : World} {t : Thing} {now : Nat} {answer : ReleaseAnswer} (h : Sound deployment w)
    (ht : w.thing = some t) : PassLaws deployment w t now answer (passHeld deployment now answer t).1 := by
  have hr := pass_cases deployment now answer t
  generalize passHeld deployment now answer t = r at hr
  have hwait : ∀ ms : ℚ, 1 ≤ max 1 ms := fun ms => le_max_left _ _
  cases hr with
  | told hlt hw =>
    obtain ⟨m, hm, heq⟩ := (told_iff h ht).1 hw
    refine ⟨nofun, nofun, fun _ _ _ hnew => absurd heq (hnew m hm), fun ms hms => .inl ?_⟩
    rw [← Option.some.inj hms]
    exact hwait _
  | warn hlt hw hpos hat =>
    refine ⟨nofun, fun due hdue => ?_, fun _ _ _ _ => rfl, fun ms _ => .inr (.inl ⟨_, rfl⟩)⟩
    cases hdue
    exact ⟨rfl, hlt, hpos, fun m hm heq => hw ((told_iff h ht).2 ⟨m, hm, heq⟩)⟩
  | early hlt hw hpos hat =>
    refine ⟨nofun, nofun, fun _ hle _ _ => absurd hat (not_lt_of_ge hle), fun ms hms => .inl ?_⟩
    rw [← Option.some.inj hms]
    exact hwait _
  | silent hlt hw hnone =>
    refine ⟨nofun, nofun, fun hpos _ _ _ => absurd hpos hnone, fun ms hms => .inl ?_⟩
    rw [← Option.some.inj hms]
    exact hwait _
  | putOff hdue r hr hlt =>
    refine ⟨nofun, nofun, fun _ _ hlt' _ => absurd hdue (not_le_of_gt hlt'), fun ms hms => .inl ?_⟩
    rw [← Option.some.inj hms]
    exact one_le_sub hlt
  | failed hdue clock failures ha =>
    refine ⟨fun _ => hdue, nofun, fun _ _ hlt' _ => absurd hdue (not_le_of_gt hlt'), fun ms hms => .inl ?_⟩
    rw [← Option.some.inj hms]
    have := releaseRetryMs_pos failures
    exact one_le_sub (by omega)
  | released hdue clock after ha =>
    refine ⟨fun _ => hdue, nofun, fun _ _ hlt' _ => absurd hdue (not_le_of_gt hlt'), fun ms hms => ?_⟩
    obtain ⟨live, rfl, hms⟩ := Option.bind_eq_some_iff.1 hms
    rcases after_wakes hms with hone | hwarn
    · exact .inl hone
    · exact .inr (.inr ⟨clock, live, ha, hwarn⟩)

/-- A release time is told of, or a wake asked for before it. -/
structure Noticed (deployment : Schedule) (lease : Option HeldLease) (due : ℚ) (w : World) : Prop where
  lease : ∀ t ∈ w.thing, t.live.lease = lease
  reached : ∀ t ∈ w.thing, due ≤ t.due deployment
  noticed : ∀ t ∈ w.thing, t.due deployment = due → (∃ m ∈ w.told, m.releaseAt = due) ∨ ∃ wake ∈ w.wake, wake < due

theorem pass_noticed {lease : Option HeldLease} {due : ℚ} {w : World} {t : Thing} {now : Nat} {answer : ReleaseAnswer}
    {r : Passed × Option Thing} (hwarn : 1 ≤ (scheduleOf lease deployment).warnMs) (h : Sound deployment w)
    (hn : Noticed deployment lease due w) (hwake : ∀ wake ∈ w.wake, (now : ℚ) ≤ wake) (ht : w.thing = some t)
    (hr : Pass deployment now answer t r) :
    Noticed deployment lease due
      ⟨r.2, r.1.clock, r.1.wakeInMs.map fun ms => r.1.clock + ms, w.told ++ warningOf now r.1.did⟩ := by
  have hlease := hn.lease t ht
  have hreached := hn.reached t ht
  have hwarnMs : (t.schedule deployment).warnMs = (scheduleOf lease deployment).warnMs := by
    rw [Thing.schedule, hlease]
  have hlate : t.due deployment ≤ now → t.due deployment = due → ∃ m ∈ w.told, m.releaseAt = due := by
    intro hle heq
    refine (hn.noticed t ht heq).resolve_right ?_
    rintro ⟨wake, hk, hlt⟩
    have := hwake wake hk
    linarith
  have htold : ∀ told, (∃ m ∈ w.told, m.releaseAt = due) → ∃ m ∈ w.told ++ told, m.releaseAt = due :=
    fun told ⟨m, hm, heq⟩ => ⟨m, List.mem_append_left _ hm, heq⟩
  cases hr with
  | told hlt hw =>
    refine ⟨fun t' ht' => ?_, fun t' ht' => ?_, fun t' ht' heq => .inl (htold _ ?_)⟩
    · rwa [← Option.some.inj ht']
    · rwa [← Option.some.inj ht']
    · rw [← Option.some.inj ht'] at heq
      rw [← heq]
      exact (told_iff h ht).1 hw
  | warn hlt hw hpos hat =>
    refine ⟨fun t' ht' => ?_, fun t' ht' => ?_, fun t' ht' heq =>
      .inl ⟨⟨_, _⟩, List.mem_append_right _ (List.mem_singleton.2 rfl), ?_⟩⟩
    · rw [← Option.some.inj ht']
      exact hlease
    · rw [← Option.some.inj ht']
      exact hreached
    · rw [← Option.some.inj ht'] at heq
      exact heq
  | early hlt hw hpos hat =>
    refine ⟨fun t' ht' => ?_, fun t' ht' => ?_, fun t' ht' heq => .inr ⟨_, rfl, ?_⟩⟩
    · rwa [← Option.some.inj ht']
    · rwa [← Option.some.inj ht']
    · rw [← Option.some.inj ht'] at heq
      rcases max_cases (1 : ℚ) (t.due deployment - (t.schedule deployment).warnMs - now) with ⟨hmax, -⟩ | ⟨hmax, -⟩
      · change (now : ℚ) + max 1 _ < due
        rw [hmax]
        linarith
      · change (now : ℚ) + max 1 _ < due
        rw [hmax]
        linarith
  | silent hlt hw hnone => exact absurd (by linarith) hnone
  | putOff hdue | failed hdue =>
    refine ⟨fun t' ht' => ?_, fun t' ht' => ?_, fun t' ht' heq => .inl (htold _ (hlate hdue ?_))⟩
    · rw [← Option.some.inj ht']
      exact hlease
    · rw [← Option.some.inj ht']
      exact hreached
    · rw [← Option.some.inj ht'] at heq
      exact heq
  | released => exact ⟨(fun t' ht' => nomatch ht'), (fun t' ht' => nomatch ht'), (fun t' ht' => nomatch ht')⟩

theorem step_noticed {lease : Option HeldLease} {due : ℚ} {w : World} {e : Event}
    (hwarn : 1 ≤ (scheduleOf lease deployment).warnMs) (h : Sound deployment w) (hn : Noticed deployment lease due w)
    (hok : InOrder w e) : Noticed deployment lease due (exec deployment e w).2 := by
  have hmoved : ∀ t t', w.thing = some t → t'.live.lease = t.live.lease → t.due deployment ≤ t'.due deployment →
      Noticed deployment lease due { w with thing := some t' } := by
    intro t t' ht hlease hdue
    refine ⟨fun x hx => ?_, fun x hx => ?_, fun x hx heq => hn.noticed t ht ?_⟩
    · rw [← Option.some.inj hx, hlease]
      exact hn.lease t ht
    · rw [← Option.some.inj hx]
      exact (hn.reached t ht).trans hdue
    · rw [← Option.some.inj hx] at heq
      exact le_antisymm (hdue.trans heq.le) (hn.reached t ht)
  unfold exec
  cases ht : w.thing with
  | none => exact hn
  | some t =>
    cases e with
    | use instant => exact hmoved t _ ht rfl (due_mono (hok t ht))
    | postpone instant => exact hmoved t _ ht rfl (due_postponed (hok t ht))
    | pass now answer => exact pass_noticed hwarn h hn hok.2.1 ht (pass_cases deployment now answer t)

theorem step_lease {lease : Option HeldLease} {w : World} (e : Event) (h : ∀ t ∈ w.thing, t.live.lease = lease) :
    ∀ t ∈ (exec deployment e w).2.thing, t.live.lease = lease := by
  unfold exec
  cases ht : w.thing with
  | none =>
    rw [ht] at h
    simp only [ht]
    exact h
  | some t =>
    have hlease := h t ht
    cases e with
    | use instant =>
      intro t' ht'
      rw [← Option.some.inj ht']
      exact hlease
    | postpone instant =>
      intro t' ht'
      rw [← Option.some.inj ht']
      exact hlease
    | pass now answer =>
      have hr := pass_cases deployment now answer t
      dsimp only
      generalize passHeld deployment now answer t = r at hr
      intro t' ht'
      cases hr with
      | released => cases ht'
      | told | early | silent | putOff | failed | warn =>
        rw [← Option.some.inj ht']
        exact hlease

theorem pass_due {now : Nat} {answer : ReleaseAnswer} {t t' : Thing} {p : Passed} (hr : Pass deployment now answer t (p, some t')) :
    t'.due deployment = t.due deployment := by
  cases hr <;> rfl

/-- A release time that moves was not told of before. -/
theorem moved_untold {w : World} {e : Event} {t t' : Thing} (h : Sound deployment w) (ht : w.thing = some t)
    (ht' : (exec deployment e w).2.thing = some t') (hlt : t.due deployment < t'.due deployment) :
    ∀ m ∈ (exec deployment e w).2.told, m.releaseAt ≠ t'.due deployment := by
  have hpast : ∀ m ∈ w.told, m.releaseAt ≠ t'.due deployment := fun m hm =>
    ne_of_lt (lt_of_le_of_lt ((h.warned t ht).past m hm) hlt)
  simp only [exec, ht] at ht' ⊢
  cases e with
  | use => exact hpast
  | postpone => exact hpast
  | pass now answer =>
    have hr := pass_cases deployment now answer t
    have hleft : passHeld deployment now answer t = ((passHeld deployment now answer t).1, some t') := Prod.ext rfl ht'
    rw [hleft] at hr
    have hsame := pass_due hr
    exact absurd hsame hlt.ne'

end Laws

/-- What the schedule keeps in a history of one held thing. -/
structure HistoryLaws (deployment : Schedule) (live : Live) (events : List Event) : Prop where
  passes : ∀ x ∈ turns (exec deployment) events (newlyHeld live), ∀ t now answer p, x.before.thing = some t →
    x.act = .pass now answer → x.answer = some p → PassLaws deployment x.before t now answer p
  once : ((final (exec deployment) events (newlyHeld live)).told.map (·.releaseAt)).Nodup
  moved : ∀ x ∈ turns (exec deployment) events (newlyHeld live), ∀ t t', x.before.thing = some t → x.after.thing = some t' →
    t.due deployment < t'.due deployment → ∀ m ∈ x.after.told, m.releaseAt ≠ t'.due deployment
  announced : 1 ≤ (scheduleOf live.lease deployment).warnMs → ∀ first x rest,
    turns (exec deployment) events (newlyHeld live) = first ++ x :: rest → ∀ t p, x.before.thing = some t → x.answer = some p →
    p.did.tried = true → ∀ y ∈ first, ∀ t', y.after.thing = some t' → t'.due deployment = t.due deployment →
    (∃ wake ∈ y.after.wake, wake < t.due deployment) →
    ∃ m ∈ x.before.told, m.releaseAt = t.due deployment ∧ m.sentAt < t.due deployment

/-- A number that is not usable is the deployment's, and no schedule releases a thing at the instant it was used. -/
structure ScheduleLaws (deployment : Schedule) : Prop where
  maxMs : ∀ lease : Option HeldLease, (∀ q, lease.bind (·.maxMs) = some (.number (.finite q)) → q < 1) →
    (scheduleOf lease deployment).maxMs = deployment.maxMs
  warnMs : ∀ lease : Option HeldLease, (∀ q, lease.bind (·.warnMs) = some (.number (.finite q)) → q < 0) →
    (scheduleOf lease deployment).warnMs = deployment.warnMs
  notAtOnce : ∀ live postponedUntil warnedFor now idleMs, now ≤ live.lastUsedAt →
    heldDecision live postponedUntil warnedFor now deployment ≠ .release idleMs

section History

variable {deployment : Schedule} {live : Live} {events : List Event}

/-- What every world of a history meets. -/
def Kept (deployment : Schedule) (live : Live) (w : World) : Prop :=
  Sound deployment w ∧ ∀ t ∈ w.thing, t.live.lease = live.lease

theorem step_kept (e : Event) (w : World) (h : Kept deployment live w) (hok : InOrder w e) :
    Kept deployment live (exec deployment e w).2 := ⟨step_sound e w h.1 hok, step_lease e h.2⟩

theorem start_kept (hd : 0 < deployment.maxMs) (hlive : 0 ≤ live.lastUsedAt) : Kept deployment live (newlyHeld live) := by
  refine ⟨newlyHeld_sound hd hlive, fun t ht => ?_⟩
  rw [← Option.some.inj ht]

theorem exec_passed {w : World} {t : Thing} {e : Event} {p : Passed} (ht : w.thing = some t)
    (hp : (exec deployment e w).1 = some p) : ∃ now answer, e = .pass now answer ∧ p = (passHeld deployment now answer t).1 := by
  simp only [exec, ht] at hp
  cases e with
  | use => cases hp
  | postpone => cases hp
  | pass now answer => exact ⟨now, answer, rfl, (Option.some.inj hp).symm⟩

/-- Where some wake was asked for before a release time, the release was announced. -/
theorem announced_run {acts : List Event} {w : World} {t t' : Thing} {p : Passed} {e : Event}
    (hwarn : 1 ≤ (scheduleOf live.lease deployment).warnMs) (h : Kept deployment live w)
    (hok : ∀ x ∈ turns (exec deployment) acts w, InOrder x.before x.act) (ht' : w.thing = some t')
    (hwake : ∃ wake ∈ w.wake, wake < t'.due deployment)
    (ht : (final (exec deployment) acts w).thing = some t) (hlast : InOrder (final (exec deployment) acts w) e)
    (hp : (exec deployment e (final (exec deployment) acts w)).1 = some p) (htried : p.did.tried = true)
    (hdue : t'.due deployment = t.due deployment) :
    ∃ m ∈ (final (exec deployment) acts w).told, m.releaseAt = t.due deployment ∧ m.sentAt < t.due deployment := by
  have hstart : Noticed deployment live.lease (t.due deployment) w := by
    rw [← hdue]
    refine ⟨h.2, fun x hx => ?_, fun x hx _ => .inr hwake⟩
    cases ht'.symm.trans hx
    exact le_refl _
  obtain ⟨hkept, hnoticed⟩ := final_guarded (I := fun w => Kept deployment live w ∧
    Noticed deployment live.lease (t.due deployment) w) ⟨h, hstart⟩
    (fun a s hs hok => ⟨step_kept a s hs.1 hok, step_noticed hwarn hs.1.1 hs.2 hok⟩) hok
  obtain ⟨now, answer, rfl, rfl⟩ := exec_passed ht hp
  have hnow := (pass_laws hkept.1 ht).notEarly htried
  obtain ⟨m, hm, heq⟩ : ∃ m ∈ (final (exec deployment) acts w).told, m.releaseAt = t.due deployment := by
    refine (hnoticed.noticed t ht rfl).resolve_right ?_
    rintro ⟨wake, hk, hlt⟩
    have := hlast.2.1 wake hk
    linarith
  exact ⟨m, hm, heq, heq ▸ (hkept.1.ahead m hm).2⟩

/-- Something held is never taken early, and its agent is told once of each release time that is looked at before. -/
theorem held_announced (hd : 0 < deployment.maxMs) (hlive : 0 ≤ live.lastUsedAt)
    (hrun : ∀ x ∈ turns (exec deployment) events (newlyHeld live), InOrder x.before x.act) :
    HistoryLaws deployment live events ∧ ScheduleLaws deployment := by
  have hstart : Kept deployment live (newlyHeld live) := start_kept hd hlive
  have hfinal := final_guarded hstart step_kept hrun
  refine ⟨⟨?_, ?_, ?_, ?_⟩, ⟨?_, ?_, ?_⟩⟩
  · refine forall_turns_where hstart step_kept (fun e w h _ => ?_) hrun
    intro t now answer p ht hact hp
    obtain ⟨now', answer', heq, rfl⟩ := exec_passed ht hp
    cases heq.symm.trans hact
    exact pass_laws h.1 ht
  · exact List.pairwise_map.2 (hfinal.1.ascending.imp fun hlt => ne_of_lt hlt)
  · exact forall_turns_where hstart step_kept (fun e w h _ t t' ht ht' hlt => moved_untold h.1 ht ht' hlt) hrun
  · intro hwarn first x rest hcut t p ht hp htried y hy t' ht' hdue hwake
    obtain ⟨early, late, rfl⟩ := List.append_of_mem hy
    rw [List.append_assoc, List.cons_append] at hcut
    rw [hcut] at hrun
    obtain ⟨acts, more, rfl, hearly, hlater⟩ := split_turns hcut
    cases more with
    | nil => cases hlater
    | cons a more =>
      rw [turns_cons, List.cons.injEq] at hlater
      obtain ⟨rfl, hlater⟩ := hlater
      obtain ⟨between, final, rfl, hbetween, hrest⟩ := split_turns hlater.symm
      cases final with
      | nil => cases hrest
      | cons e final =>
        rw [turns_cons, List.cons.injEq] at hrest
        obtain ⟨rfl, -⟩ := hrest
        have hkept : Kept deployment live (History.final (exec deployment) (acts ++ [a]) (newlyHeld live)) := by
          refine final_guarded hstart step_kept fun z hz => hrun z ?_
          rw [turns_append, ← hearly] at hz
          rcases List.mem_append.1 hz with hz | hz
          · exact List.mem_append_left _ hz
          · rw [List.mem_singleton.1 hz]
            exact List.mem_append_right _ List.mem_cons_self
        rw [final_append] at hkept
        refine announced_run hwarn hkept (fun z hz => hrun z ?_) ht' (hdue ▸ hwake) ht ?_ hp htried hdue
        · refine List.mem_append_right _ (List.mem_cons_of_mem _ (List.mem_append_left _ ?_))
          rw [hbetween]
          exact hz
        · exact hrun _ (List.mem_append_right _ (List.mem_cons_of_mem _ (List.mem_append_right _ List.mem_cons_self)))
  · exact fun lease h => scheduleOf_unusable.1 (usable_none h)
  · exact fun lease h => scheduleOf_unusable.2 (usable_none h)
  · exact fun live postponedUntil warnedFor now idleMs hnow => not_released_at_once hd hnow idleMs

end History

instance (w : World) (e : Event) : Decidable (InOrder w e) :=
  match e with
  | .use instant => inferInstanceAs (Decidable (∀ t ∈ w.thing, t.live.lastUsedAt ≤ instant))
  | .postpone instant => inferInstanceAs (Decidable (∀ t ∈ w.thing, t.quietUntil.getD 0 < instant))
  | .pass now answer =>
    inferInstanceAs (Decidable (w.last ≤ now ∧ (∀ wake ∈ w.wake, (now : ℚ) ≤ wake) ∧ now ≤ answer.clock))

/-- A history in order, in which the thing is taken at a release time nobody was told of. -/
def Unannounced (deployment : Schedule) (live : Live) (events : List Event) : Prop :=
  (∀ x ∈ turns (exec deployment) events (newlyHeld live), InOrder x.before x.act) ∧
    0 < (scheduleOf live.lease deployment).warnMs ∧
    ∃ x ∈ turns (exec deployment) events (newlyHeld live), (x.answer.any (·.did.tried)) = true ∧
      ∀ t ∈ x.before.thing, ∀ m ∈ x.before.told, m.releaseAt ≠ t.due deployment

instance (deployment : Schedule) (live : Live) (events : List Event) : Decidable (Unannounced deployment live events) :=
  inferInstanceAs (Decidable (_ ∧ _ ∧ _))

/-- Two minutes idle, and told one minute before. -/
def twoMinutes : Schedule := ⟨60000, 120000⟩

/-- The thing is warned about and refuses to go; used once more, it is next looked at when the refusal is tried again. -/
def refusedOnce : List Event :=
  [.pass 0 (.released 0 none), .pass 60000 (.released 60000 none), .pass 60000 (.released 60000 none),
    .pass 120000 (.failed 120000), .use 130000, .pass 420000 (.released 420000 none)]

/-- Taken on a schedule that warns longer ahead than it waits, the thing is left held in another state. -/
def leftHeld : List Event :=
  [.pass 0 (.released 0 none), .pass 0 (.released 0 none), .pass 10 (.released 10 (some ⟨5, none⟩))]

/-- The retry of a refusal, a first pass that comes late and a warning due within a millisecond of the release are each
taken with no warning; and a thing left held with its warning due asks for a wake at once. -/
theorem taken_unannounced :
    Unannounced twoMinutes ⟨0, none⟩ refusedOnce ∧
      Unannounced twoMinutes ⟨0, none⟩ [.pass 120000 (.released 120000 none)] ∧
      Unannounced ⟨1 / 2, 10⟩ ⟨0, none⟩ [.pass 9 (.released 9 none), .pass 10 (.released 10 none)] ∧
      (∀ x ∈ turns (exec ⟨20, 10⟩) leftHeld (newlyHeld ⟨0, none⟩), InOrder x.before x.act) ∧
      ∃ x ∈ turns (exec ⟨20, 10⟩) leftHeld (newlyHeld ⟨0, none⟩), x.answer = some ⟨.released, some 0, 10⟩ := by
  decide +kernel

/-- Told, postponed, told of the new time, and taken at it. -/
def postponedOnce : List Event :=
  [.pass 0 (.released 0 none), .pass 60000 (.released 60000 none), .postpone 300000, .pass 60000 (.released 60000 none),
    .pass 240000 (.released 240000 none), .pass 240000 (.released 240000 none), .pass 300000 (.released 300000 none)]

theorem held_announced_postponed :
    (∀ x ∈ turns (exec twoMinutes) postponedOnce (newlyHeld ⟨0, none⟩), InOrder x.before x.act) ∧
      (final (exec twoMinutes) postponedOnce (newlyHeld ⟨0, none⟩)).told = [⟨120000, 60000⟩, ⟨300000, 240000⟩] ∧
      ((final (exec twoMinutes) postponedOnce (newlyHeld ⟨0, none⟩)).told.map (·.releaseAt)).Nodup := by
  have hrun : ∀ x ∈ turns (exec twoMinutes) postponedOnce (newlyHeld ⟨0, none⟩), InOrder x.before x.act := by decide +kernel
  exact ⟨hrun, by decide +kernel, (held_announced (by decide +kernel) (le_refl _) hrun).1.once⟩

end Antiproton.IdleLease
