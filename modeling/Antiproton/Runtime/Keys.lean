import Antiproton.Runtime.Consent

/-!
# Antiproton.Runtime.Keys

At most one attempt per idempotency key. The start of an operation is one check-and-set, so only one caller
takes it; but a refusal is written over whatever the row says, and makes a key that had begun startable again.

* `keyInv_move`: while no refusal lands on an operation that has begun, at most one start of it takes it.
* `key_entered_once`: then at most one step is entered by the calls under the key, or under its operation.
* `key_entered_twice`: a call refused after another's start and end, and a third call that starts again.
-/

namespace Antiproton

open Js Process

variable {G : Gateway} {t o : String}

/-- Whether an operation has begun: its row says neither `pending` nor `rejected`. -/
def begun (t o : String) (w : World) : Bool := (statusOf t o w).any fun s => !startable s

/-- Whether a move ends an operation that has begun as one that may start. -/
def lateRefusal (t o : String) (s : Sys G.machine) (m : Move G.machine) : Bool :=
  match s.acting m with
  | some (_, .completeOperation t' o' status _ _ _) =>
    t' == t && o' == o && startable status && begun t o s.world
  | _ => false

/-- What may happen beside an operation's attempts: any request, any await but a late refusal, and any change
around them, policies included, that leaves the operation's status. -/
def RefusesInTime (G : Gateway) (t o : String) (s : Sys G.machine) (m : Move G.machine) : Prop :=
  match m with
  | .env f => statusOf t o (f s.world) = statusOf t o s.world
  | m => lateRefusal t o s m = false

instance (s : Sys G.machine) (m : Move G.machine) : Decidable (RefusesInTime G t o s m) :=
  match m with
  | .start r => inferInstanceAs (Decidable (lateRefusal t o s (.start r) = false))
  | .step i input => inferInstanceAs (Decidable (lateRefusal t o s (.step i input) = false))
  | .env f => inferInstanceAs (Decidable (statusOf t o (f s.world) = statusOf t o s.world))

/-- The invariant: every program keeps its law, and an operation whose attempt was taken has begun, once. -/
structure KeyInv (G : Gateway) (t o : String) (s : Sys G.machine) : Prop where
  obeying : Obeying (M := G.machine) (law G) G.possible s
  once : total (fun _ => takesOf t o) s ≤ 1
  begun : 0 < total (fun _ => takesOf t o) s → begun t o s.world

/-- An await that ends nothing late takes a fresh attempt, or leaves one that was taken begun. -/
theorem takes_step {op : Await} {ans : op.Ans} {before after : Option OperationStatus}
    (hs : StatusStep t o ⟨op, ans⟩ before after)
    (hlate : ∀ s ref result facts, op = .completeOperation t o s ref result facts → startable s →
      before.any (fun s => !startable s) = false) :
    (takesOf t o ⟨op, ans⟩ = 1 ∧ before.any (fun s => !startable s) = false ∧ after.any (fun s => !startable s)) ∨
      takesOf t o ⟨op, ans⟩ = 0 ∧ (before.any (fun s => !startable s) → after.any (fun s => !startable s)) := by
  cases hs with
  | recorded => exact .inr ⟨rfl, id⟩
  | @started s hs => exact .inl ⟨by simp [takesOf], by simp [hs], rfl⟩
  | @completed s s' ref result facts =>
    refine .inr ⟨rfl, fun hb => ?_⟩
    cases hs' : startable s' with
    | false => simp [hs']
    | true =>
      rw [hlate s' ref result facts rfl hs'] at hb
      cases hb
  | kept he => exact .inr ⟨he, id⟩

theorem keyInv_move (s : Sys G.machine) (m : Move G.machine) (hs : KeyInv G t o s)
    (hm : RefusesInTime G t o s m) : KeyInv G t o (s.move m) := by
  have hobey := obeying_move (M := G.machine) exec_possible keeps_law hs.obeying m
  rcases s.move_cases m with ⟨r, -, h⟩ | ⟨f, rfl, h⟩ | h | ⟨i, input, p, op, next, rfl, hi, hp, h⟩
  · rw [h] at hobey ⊢
    refine ⟨hobey, ?_, ?_⟩ <;> rw [total_start]
    · exact hs.once
    · exact hs.begun
  · rw [h] at hobey ⊢
    refine ⟨hobey, hs.once, fun ht => ?_⟩
    have hst : statusOf t o (f s.world) = statusOf t o s.world := hm
    rw [begun, hst]
    exact hs.begun ht
  · rw [h]; exact hs
  · have hlate : lateRefusal t o s (.step i input) = false := hm
    have hstep : StatusStep t o ⟨op, (Await.exec G.ids op input s.world).1⟩ (statusOf t o s.world)
        (statusOf t o (Await.exec G.ids op input s.world).2) := exec_status op
    have htake := takes_step hstep (by
      rintro s' ref result facts rfl hs'
      simpa [lateRefusal, Sys.acting_step hi hp, hs', begun] using hlate)
    rw [h] at hobey ⊢
    refine ⟨hobey, ?_, ?_⟩ <;> rw [total_step _ hi]
    · rcases htake with ⟨h1, hb, -⟩ | ⟨h0, -⟩
      · have hzero : total (fun _ => takesOf t o) s = 0 := Nat.eq_zero_of_not_pos fun ht => by
          have hbegun := hs.begun ht
          rw [begun, hb] at hbegun
          cases hbegun
        rw [h1, hzero]
      · rw [h0, Nat.zero_add]
        exact hs.once
    · rcases htake with ⟨-, -, ha⟩ | ⟨h0, ha⟩
      · exact fun _ => ha
      · rw [h0, Nat.zero_add]
        exact fun ht => ha (hs.begun ht)

/-! ## The calls under one key -/

/-- Whether a request is a call with a key, of a task. -/
def Request.hasKey (t task key : String) : Request → Bool
  | .invoke ctx _ _ opts => ctx.tenantId == t && ctx.taskId == task && opts.invokeOpts.key == some key
  | _ => false

/-- The share of one event of a request: a step entered by a call with the key, or under its operation. -/
def entersUnderKey (G : Gateway) (t task key : String) (r : Request) (e : Event gatewayInterface) : Nat :=
  match e with
  | ⟨.enter step, _⟩ =>
    if r.hasKey t task key ∨ (step.tenantId = t ∧ step.operationId = G.ids.keyed t task key) then 1 else 0
  | _ => 0

theorem keyed_of_hasKey {r : Request} {task key : String} (hr : r.hasKey t task key) :
    r.keyed G = some (t, G.ids.keyed t task key) := by
  cases r with
  | invoke ctx raw args opts =>
    simp only [Request.hasKey, Bool.and_eq_true, beq_iff_eq] at hr
    obtain ⟨⟨rfl, rfl⟩, hk⟩ := hr
    simp only [Request.keyed, hk, Option.map_some]
  | _ => cases hr

/-- A call with a key enters steps under the key's operation only. -/
theorem entersUnderKey_le {r : Request} {task key : String} {h : History} (hl : Lawful (law G r) h) :
    tally (entersUnderKey G t task key r) h ≤ tally (entersOf t (G.ids.keyed t task key)) h := by
  induction h with
  | nil => exact Nat.le_refl 0
  | cons e h ih =>
    have hle := ih hl.2
    obtain ⟨op, ans⟩ := e
    cases op with
    | enter step =>
      have hown := hl.1.2
      simp only [tally_cons, entersUnderKey, entersOf]
      refine Nat.add_le_add ?_ hle
      split
      · rename_i hk
        have hstep : step.tenantId = t ∧ step.operationId = G.ids.keyed t task key := hk.elim (fun hr => by
          have h := hown _ (keyed_of_hasKey hr)
          exact ⟨(congrArg Prod.fst h).symm, (congrArg Prod.snd h).symm⟩) id
        rw [if_pos hstep]
      · exact Nat.zero_le _
    | _ => simp only [tally_cons, entersUnderKey, Nat.zero_add]; omega

/-- While every refusal of the key's operation lands before it has begun: in every interleaving, at most one
step is entered by the calls with the key, or under its operation. -/
theorem key_entered_once (t task key : String) {w : World} {ms : List (Move G.machine)}
    (hg : Guarded (RefusesInTime G t (G.ids.keyed t task key)) ⟨w, []⟩ ms) :
    total (entersUnderKey G t task key) (Sys.run ⟨w, []⟩ ms) ≤ 1 := by
  have hstart : KeyInv G t (G.ids.keyed t task key) ⟨w, []⟩ :=
    ⟨fun p hp => absurd hp List.not_mem_nil, Nat.zero_le 1, fun h => absurd h (Nat.lt_irrefl 0)⟩
  have hinv := invariant keyInv_move hstart hg
  calc total (entersUnderKey G t task key) (Sys.run ⟨w, []⟩ ms)
      ≤ total (fun _ => takesOf t (G.ids.keyed t task key)) (Sys.run ⟨w, []⟩ ms) :=
        total_le fun p hp => Nat.le_trans (entersUnderKey_le (hinv.obeying p hp).1)
          (enters_le_takes (hinv.obeying p hp).1)
    _ ≤ 1 := hinv.once

/-- Two calls of a write that may run, one after the other. -/
def twoWrites : List (Move filesGateway.machine) :=
  .start (keyedCall "write") :: awaits 0 12 5 ++ .start (keyedCall "write") :: awaits 1 12 6

theorem key_entered_once_twoWrites :
    total (entersUnderKey filesGateway "t" "task" "k") (Sys.run ⟨filesWorld .allow, []⟩ twoWrites) ≤ 1 := by
  have hg : Guarded (RefusesInTime filesGateway "t" (filesGateway.ids.keyed "t" "task" "k")) ⟨filesWorld .allow, []⟩
      twoWrites := by decide
  exact key_entered_once "t" "task" "k" hg

/-- The mount's policy, changed. -/
def policyChanged (decision : PolicyDecision) : Move filesGateway.machine :=
  .env fun w => { w with db := { w.db with mounts := [filesMount decision] } }

/-- A write read under a policy that denies it, up to its guard; the policy changed, and the same write run;
the first one refused; and the write called once more. -/
def refusedLate : List (Move filesGateway.machine) :=
  .start (keyedCall "write") :: awaits 0 5 5 ++ policyChanged .allow :: .start (keyedCall "write") :: awaits 1 12 6 ++
    awaits 0 4 7 ++ .start (keyedCall "write") :: awaits 2 12 8

/-- The refusal makes the key startable again, and its step is entered twice. -/
theorem key_entered_twice :
    total (entersUnderKey filesGateway "t" "task" "k") (Sys.run ⟨filesWorld .deny, []⟩ refusedLate) = 2 := by
  decide

end Antiproton
