import Antiproton.Runtime.Rows

/-!
# Antiproton.Runtime.Consent

A held call runs at most once, and only with consent. Any number of requests run beside one another, each
of them may stop for good at any await, and anything but the hold's own columns may change around them.
The requests that call the operation hold it: none of them is let through.

* `Claimed`: what a hold's columns say of the times its run was claimed.
* `consentInv_move`: the invariant that ties the hold to every program's history.
* `held_call_consented`: the operation's step is entered at most once, only on a hold approved strictly
  before its deadline, and never on one denied or expired.
-/

namespace Antiproton

open Js Process

variable {G : Gateway} {t o : String}

/-! ## What a history owes to its law -/

section Lawful

variable {r : Request} {h : History}

/-- Every step entered had an attempt of its own. -/
theorem enters_le_takes (hl : Lawful (law G r) h) : tally (entersOf t o) h ≤ tally (takesOf t o) h := by
  induction h with
  | nil => exact Nat.le_refl 0
  | cons e h ih =>
    have hle := ih hl.2
    obtain ⟨op, ans⟩ := e
    cases op with
    | enter step =>
      have hlt : tally (entersOf step.tenantId step.operationId) h < tally (takesOf step.tenantId step.operationId) h :=
        hl.1.1
      by_cases hk : step.tenantId = t ∧ step.operationId = o
      · obtain ⟨rfl, rfl⟩ := hk
        simp only [tally_cons, entersOf, takesOf, and_self, if_true, Nat.zero_add]
        omega
      · simpa only [tally_cons, entersOf, takesOf, if_neg hk, Nat.zero_add] using hle
    | _ => simp only [tally_cons, entersOf, Nat.zero_add]; omega

/-- An attempt is a start. -/
theorem takes_le_starts (h : History) : tally (takesOf t o) h ≤ tally (startsOf t o) h := by
  refine List.sum_le_sum fun e _ => ?_
  obtain ⟨op, ans⟩ := e
  cases op with
  | startOperation t' o' =>
    simp only [takesOf, startsOf]
    split
    · rename_i hk
      rw [if_pos ⟨hk.1, hk.2.1⟩]
    · exact Nat.zero_le _
  | _ => exact Nat.le_refl 0

/-- Outside a call, every start was claimed. -/
theorem starts_le_claims (hl : Lawful (law G r) h) (hr : r.isCall = false) (ho : ¬ G.Resume o) :
    tally (startsOf t o) h ≤ tally (claimsOf t o) h := by
  induction h with
  | nil => exact Nat.le_refl 0
  | cons e h ih =>
    have hle := ih hl.2
    obtain ⟨op, ans⟩ := e
    cases op with
    | startOperation t' o' =>
      by_cases hk : t' = t ∧ o' = o
      · obtain ⟨rfl, rfl⟩ := hk
        have hlt : tally (startsOf t' o') h < tally (claimsOf t' o') h := by
          obtain hc | hc | hc := hl.1
          · rw [hr] at hc; exact absurd hc Bool.false_ne_true
          · exact absurd hc ho
          · exact hc
        simp only [tally_cons, startsOf, claimsOf, and_self, if_true, Nat.zero_add]
        omega
      · simpa only [tally_cons, startsOf, claimsOf, if_neg hk, Nat.zero_add] using hle
    | _ => simp only [tally_cons, startsOf, Nat.zero_add]; omega

end Lawful

/-! ## A hold's consent -/

/-- The columns of a hold that say whether its call may run. -/
structure Consent where
  state : ApprovalState
  decidedAt : Option Int
  expiresAt : Option Int
  runAt : Option Int
deriving DecidableEq, Repr

def ApprovalRow.consent (r : ApprovalRow) : Consent := ⟨r.state, r.decidedAt, r.expiresAt, r.runAt⟩

/-- Decided `approved`, whatever became of the run. -/
def Consent.Approved (c : Consent) : Prop := c.state = .approved ∨ c.state = .executed ∨ c.state = .failed

/-- What a hold's columns say when its run was claimed `n` times. -/
structure Consent.Claimed (c : Consent) (n : Nat) : Prop where
  once : n ≤ 1
  claimed : 0 < n → c.runAt.isSome ∧ c.Approved
  inTime : c.Approved → ∃ d, c.decidedAt = some d ∧ pastDeadline c.expiresAt d = false

/-- The same of a hold that may not be there yet. -/
def Claimed (n : Nat) : Option Consent → Prop
  | none => n = 0
  | some c => c.Claimed n

theorem not_approved_of_pending {c : Consent} (h : c.state = .pending) : ¬ c.Approved := by
  rintro (hc | hc | hc) <;> rw [h] at hc <;> cases hc

/-- An await keeps what a hold's columns say of its claims, its own counted. -/
theorem claimed_step {now : Int} {e : Event gatewayInterface} {before after : Option ApprovalRow} {n : Nat}
    (hs : HoldStep t o now e before after) (hn : Claimed n (before.map ApprovalRow.consent)) :
    Claimed (claimsOf t o e + n) (after.map ApprovalRow.consent) := by
  cases hs with
  | made ht ho =>
    obtain rfl : n = 0 := hn
    refine ⟨Nat.zero_le 1, fun h => absurd h (Nat.lt_irrefl 0), fun h => ?_⟩
    exact absurd h (not_approved_of_pending rfl)
  | @decided r d who by_ notice record hd =>
    have hp : ¬ r.consent.Approved := not_approved_of_pending (decisionProblem_pending hd)
    have h0 : n = 0 := Nat.eq_zero_of_not_pos fun h => hp (hn.claimed h).2
    subst h0
    refine ⟨Nat.zero_le 1, fun h => absurd h (Nat.lt_irrefl 0), fun ha => ⟨now, rfl, ?_⟩⟩
    cases d with
    | approved => exact (decisionProblem_approved.1 hd).2
    | denied => rcases ha with h | h | h <;> cases h
    | expired => rcases ha with h | h | h <;> cases h
  | @claimed r at_ hs hr =>
    have h0 : n = 0 := Nat.eq_zero_of_not_pos fun h => by
      have h := (hn.claimed h).1
      simp only [ApprovalRow.consent, hr] at h
      cases h
    subst h0
    simp only [claimsOf, and_self, if_true]
    exact ⟨Nat.le_refl 1, fun _ => ⟨rfl, .inl hs⟩, hn.inTime⟩
  | @finished r s summary notice hs =>
    have happ : r.consent.Approved := .inl hs
    simp only [claimsOf, Nat.zero_add]
    refine ⟨hn.once, fun h => ⟨(hn.claimed h).1, ?_⟩, fun _ => hn.inTime happ⟩
    cases s with
    | executed => exact .inr (.inl rfl)
    | failed => exact .inr (.inr rfl)
  | kept he =>
    have h0 : claimsOf t o e = 0 := Nat.eq_zero_of_not_pos fun h => he (endsHold_of_claim h)
    rw [h0, Nat.zero_add]
    exact hn

/-- A hold that is there was there, or was made by the await. -/
theorem hold_was_or_made {now : Int} {op : Await} {ans : op.Ans} {before after : Option ApprovalRow}
    (hs : HoldStep t o now ⟨op, ans⟩ before after) (ha : after.isSome) :
    before.isSome ∨ ∃ a same, op = .holdApproval a same ∧ a.operationId = o := by
  cases hs with
  | @made a same _ ho => exact .inr ⟨a, same, rfl, ho⟩
  | kept _ => exact .inl ha
  | _ => exact .inl rfl

/-! ## Every interleaving -/

/-- Whether a move starts an operation for a call. -/
def callStarts (t o : String) (s : Sys G.machine) (m : Move G.machine) : Bool :=
  match s.acting m with
  | some (p, .startOperation t' o') => t' == t && o' == o && p.request.isCall
  | _ => false

/-- What may happen beside a hold: any request, any await of one but a call's start of the operation, and
any change around them that leaves the hold's own columns. -/
def Alongside (G : Gateway) (t o : String) (s : Sys G.machine) (m : Move G.machine) : Prop :=
  match m with
  | .env f => (holdOf t o (f s.world)).map ApprovalRow.consent = (holdOf t o s.world).map ApprovalRow.consent
  | m => callStarts t o s m = false

instance (s : Sys G.machine) (m : Move G.machine) : Decidable (Alongside G t o s m) :=
  match m with
  | .start r => inferInstanceAs (Decidable (callStarts t o s (.start r) = false))
  | .step i input => inferInstanceAs (Decidable (callStarts t o s (.step i input) = false))
  | .env f => inferInstanceAs (Decidable ((holdOf t o (f s.world)).map ApprovalRow.consent = _))

/-- The invariant: every program keeps its law, no call has started the operation, an id drawn for an
answer is not held, and the hold's columns count the claims of its run. -/
structure ConsentInv (G : Gateway) (t o : String) (s : Sys G.machine) : Prop where
  obeying : Obeying (M := G.machine) (law G) G.possible s
  calls : ∀ p ∈ s.procs, p.request.isCall → tally (startsOf t o) p.hist = 0
  held : (holdOf t o s.world).isSome → ¬ G.Resume o
  claimed : Claimed (total (fun _ => claimsOf t o) s) ((holdOf t o s.world).map ApprovalRow.consent)

theorem consentInv_move (s : Sys G.machine) (m : Move G.machine) (hs : ConsentInv G t o s)
    (hm : Alongside G t o s m) : ConsentInv G t o (s.move m) := by
  have hobey := obeying_move (M := G.machine) exec_possible keeps_law hs.obeying m
  rcases s.move_cases m with ⟨r, -, h⟩ | ⟨f, rfl, h⟩ | h | ⟨i, input, p, op, next, rfl, hi, hp, h⟩
  · rw [h] at hobey ⊢
    refine ⟨hobey, fun p hp hc => ?_, hs.held, ?_⟩
    · rcases List.mem_append.1 hp with hp | hp
      · exact hs.calls p hp hc
      · rw [List.mem_singleton] at hp
        subst hp
        rfl
    · rw [total_start]
      exact hs.claimed
  · have hsome : (holdOf t o (f s.world)).isSome = (holdOf t o s.world).isSome := by
      have h := congrArg Option.isSome hm
      simpa only [Option.isSome_map] using h
    rw [h] at hobey ⊢
    refine ⟨hobey, hs.calls, fun hh => hs.held (hsome ▸ hh), ?_⟩
    rw [show (holdOf t o (f s.world)).map ApprovalRow.consent = _ from hm]
    exact hs.claimed
  · rw [h]; exact hs
  · have hstep : HoldStep t o input.now ⟨op, (Await.exec G.ids op input s.world).1⟩ (holdOf t o s.world)
        (holdOf t o (Await.exec G.ids op input s.world).2) := exec_hold op
    rw [h] at hobey ⊢
    refine ⟨hobey, fun q hq hc => ?_, fun hh => ?_, ?_⟩
    · rcases List.mem_or_eq_of_mem_set hq with hq | rfl
      · exact hs.calls q hq hc
      · have hold := hs.calls p (List.mem_of_getElem? hi) hc
        rw [tally_cons, hold, Nat.add_zero]
        cases op with
        | startOperation t' o' =>
          by_contra hne
          have hk : t' = t ∧ o' = o := by
            by_contra hk
            exact hne (if_neg hk)
          obtain ⟨rfl, rfl⟩ := hk
          have hfalse : callStarts t' o' s (.step i input) = false := hm
          simp [callStarts, Sys.acting_step hi hp, hc] at hfalse
        | _ => rfl
    · -- a hold just made is not of an id drawn for an answer
      have hlaw := (hs.obeying p (List.mem_of_getElem? hi)).2
      rw [hp] at hlaw
      rcases hold_was_or_made hstep hh with hh | ⟨a, same, rfl, rfl⟩
      · exact hs.held hh
      · exact hlaw.1
    · rw [total_step _ hi]
      exact claimed_step hstep hs.claimed

theorem consentInv_start {w : World} (hw : holdOf t o w = none) : ConsentInv G t o ⟨w, []⟩ where
  obeying := fun p hp => absurd hp List.not_mem_nil
  calls := fun p hp => absurd hp List.not_mem_nil
  held := fun h => by rw [hw] at h; cases h
  claimed := by rw [hw]; rfl

/-- Every step entered under a held operation was claimed. -/
theorem ConsentInv.enters_le {s : Sys G.machine} (hs : ConsentInv G t o s) (hh : (holdOf t o s.world).isSome) :
    total (fun _ => entersOf t o) s ≤ total (fun _ => claimsOf t o) s := by
  refine total_le fun p hp => ?_
  have hl := (hs.obeying p hp).1
  have hle := Nat.le_trans (enters_le_takes hl) (takes_le_starts (t := t) (o := o) p.hist)
  cases hc : p.request.isCall with
  | false => exact Nat.le_trans hle (starts_le_claims hl hc (hs.held hh))
  | true =>
    rw [hs.calls p hp hc] at hle
    exact Nat.le_trans hle (Nat.zero_le _)

section Files

def filesIds : OperationIds where
  sha256 s := "k" ++ s
  random
    | .call, n => String.ofList ('c' :: List.replicate n '0')
    | .resume, n => String.ofList ('r' :: List.replicate n '0')
  call_ne_resume m n h := by
    have h := congrArg (fun s => s.toList.head?) h
    simp at h
  keyed_ne_resume s n h := by
    have h := congrArg (fun s => s.toList.head?) h
    simp at h

/-- A plugin of one read and one write. -/
def filesPlugin : Plugin where
  id := "files"
  version := "1"
  tools := [⟨"read", .read, false⟩, ⟨"write", .write, false⟩]
  mountTools _ := none
  defaultPolicy := none
  policyKey := none
  refuse := none
  classify := none
  bridge := none
  interrupts := none

def filesGateway : Gateway where
  plugins p := if p = "files" then some filesPlugin else none
  seeded _ := true
  approvalTtlMs := 1000
  ids := filesIds
  parseJson _ := none
  answerSpecOf j := .ok j
  answerProblem _ _ := none
  refusedToolName := some
  isoTime _ := "soon"

def filesMount (decision : PolicyDecision) : MountRecord where
  tenantId := "t"
  agentId := "a"
  mountAlias := "docs"
  plugin := "files"
  installationId := "i"
  connectionId := none
  toolVersion := "1"
  publicConfig := .null
  secretRef := none
  policy := some ⟨some decision, some decision, none⟩
  toolSnapshot := none

/-- The world before any call: the one mount, its reads and writes under one decision. -/
def filesWorld (decision : PolicyDecision) : World := ⟨{ Db.empty with mounts := [filesMount decision] }, [], 0⟩

/-- A call of a tool under the key `k`. -/
def keyedCall (tool : String) : Request :=
  .invoke ⟨"t", "a", "task"⟩ ("docs." ++ tool) .null ⟨false, false, some "k", none, []⟩

/-- The operation of every call under that key. -/
def keyedId : String := "op_kt|task|k"

/-- What the environment gives at one time: every step of the plugin comes back. -/
def moment (now : Int) : Input :=
  ⟨now, fun n => String.ofList (List.replicate n 'e'), none, .ok "", .returned none .null, .ok ()⟩

/-- `n` awaits of the `i`-th request, at one time. -/
def awaits (i n : Nat) (now : Int) : List (Move filesGateway.machine) := List.replicate n (.step i (moment now))

/-- A read held, and its hold approved a moment later. -/
def approvedRead : List (Move filesGateway.machine) :=
  .start (keyedCall "read") :: awaits 0 9 5 ++
    .start (.applyApproval "t" keyedId .approved "ann" none false) :: awaits 1 30 6

end Files

end Antiproton
