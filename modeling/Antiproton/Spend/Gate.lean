import Antiproton.Lib.History
import Antiproton.Spend.Limits

/-!
# Antiproton.Spend.Gate

`SpendGate.admit` (`cf/src/spend-limit.ts`), any number of calls at once: a call is answered where it begins, from what
the isolate keeps, or begins its reads and is answered when they come back, in any order.

* `Kept`: what the caches hold are readings of that tenant that were made, and what agents' pools are.
* `kept_step`: every step keeps it.
* `gate_by_the_rule`: every answer is the rule's on a reading that is the call's own or fresh when it began.
-/

namespace Antiproton.Spend

open Js

/-- What names a tenant or an agent: of letters, digits, `.`, `_` and `-` (`cf/src/object-name.ts`), so without a NUL. -/
abbrev ObjectId := { s : Str // (0 : UInt16) ∉ s }

def DAY_MS : Int := 86400000

def dayOf (t : Int) : Int := t / DAY_MS * DAY_MS

def SPEND_CACHE_MS : Int := 30000

def SPEND_CACHE_NEAR_MS : Int := 5000

/-- A reading kept, and when it was begun. -/
structure Hit where
  «at» : Int
  spend : DaySpend
deriving DecidableEq

structure SpendGate where
  cache : Map Hit
  pools : Map Pool
deriving DecidableEq

def poolKey (tenantId agentId : ObjectId) : Str := tenantId ++ 0 :: agentId.1

theorem poolKey_injective {t t' a a' : ObjectId} (h : poolKey t a = poolKey t' a') : t = t' ∧ a = a' := by
  obtain ⟨t, ht⟩ := t
  obtain ⟨t', ht'⟩ := t'
  have hsplit : t = t' ∧ a.1 = a'.1 := by
    simp only [poolKey] at h
    induction t generalizing t' with
    | nil =>
      cases t' with
      | nil => exact ⟨rfl, (List.cons.inj h).2⟩
      | cons u t' => exact absurd ((List.cons.inj h).1 ▸ List.mem_cons_self) ht'
    | cons u t ih =>
      cases t' with
      | nil => exact absurd ((List.cons.inj h).1.symm ▸ List.mem_cons_self) ht
      | cons u' t' =>
        obtain ⟨rfl, hrest⟩ := List.cons.inj h
        obtain ⟨rfl, ha⟩ := ih (fun hm => ht (List.mem_cons_of_mem _ hm)) t' (fun hm => ht' (List.mem_cons_of_mem _ hm)) hrest
        exact ⟨rfl, ha⟩
  exact ⟨Subtype.ext hsplit.1, Subtype.ext hsplit.2⟩

/-- A call, and the pool known where it began. -/
structure Call where
  tenantId : ObjectId
  agentId : Option ObjectId
  now : Int
  pool : Option Pool
deriving DecidableEq

section Admit

variable (limits : SpendLimits)

/-- How long a reading is trusted by a call. -/
def window (spend : DaySpend) (pool : Option Pool) : Int :=
  if near spend limits pool then SPEND_CACHE_NEAR_MS else SPEND_CACHE_MS

/-- Whether a reading kept answers a call. -/
def fresh (c : Call) (hit : Hit) : Bool :=
  decide (hit.spend.day = dayOf c.now ∧ c.now - hit.at < window limits hit.spend c.pool)

def poolAt (g : SpendGate) (tenantId : ObjectId) : Option ObjectId → Option Pool
  | none => some .tenant
  | some agentId => g.pools.get (poolKey tenantId agentId)

/-- `admit` up to its reads: an answer, or the reading it keeps if that is fresh. -/
def admitStart (g : SpendGate) (c : Call) : Admission ⊕ Option Hit :=
  if isExempt c.tenantId limits then .inl (.admitted .exempt)
  else
    match (g.cache.get c.tenantId).filter (fresh limits c), c.pool with
    | some hit, some pool => .inl (judge hit.spend limits pool)
    | hit, _ => .inr hit

/-- `admit` from its reads on: what it answers, and what it keeps. A read that failed keeps nothing. -/
def admitReads (g : SpendGate) (c : Call) (kept : Option Hit) : Option (Pool × DaySpend) → Admission × SpendGate
  | none => (.admitted .read_failed, g)
  | some (readPool, readSpend) =>
    let pool := c.pool.getD readPool
    let hit := kept.getD ⟨c.now, readSpend⟩
    let cache := if 10000 ≤ g.cache.length then [] else g.cache
    let pools := if 10000 ≤ g.pools.length then [] else g.pools
    (judge hit.spend limits pool,
      { cache := if kept.isSome then cache else Map.set cache c.tenantId hit
        pools := match c.agentId with
          | none => pools
          | some agentId => Map.set pools (poolKey c.tenantId agentId) pool })

end Admit

/-! ## Any number of calls -/

/-- A reading that was made: for whom, by which call, when that began, and what it read. -/
structure Reading where
  tenantId : ObjectId
  call : Nat
  «at» : Int
  spend : DaySpend
deriving DecidableEq

/-- A call whose reads are under way, with the reading it keeps. -/
structure Waiting where
  id : Nat
  call : Call
  kept : Option Hit
deriving DecidableEq

structure World where
  gate : SpendGate
  next : Nat
  waiting : List Waiting
  readings : List Reading
deriving DecidableEq

structure Answered where
  id : Nat
  call : Call
  admission : Admission
  failed : Bool
deriving DecidableEq

/-- A call begins, or its reads come back: they failed, or the ledger gave its figures. -/
inductive Step where
  | call (tenantId : ObjectId) (agentId : Option ObjectId) (now : Int)
  | reads (id : Nat) (result : Option DaySpend)

section Run

variable (limits : SpendLimits) (poolOf : ObjectId → ObjectId → Pool)

def poolOfCall (c : Call) : Pool :=
  match c.agentId with
  | none => .tenant
  | some agentId => poolOf c.tenantId agentId

/-- The day of a reading is that of the time it is asked for (`readDaySpend`). -/
def readDaySpend (ledger : DaySpend) (now : Int) : DaySpend := { ledger with day := dayOf now }

/-- The reading of a call whose reads came back: none where it kept one, or where they failed. -/
def readingsOf (x : Waiting) : Option (Pool × DaySpend) → List Reading
  | none => []
  | some (_, spend) => if x.kept.isSome then [] else [⟨x.call.tenantId, x.id, x.call.now, spend⟩]

def Step.exec : Step → World → Option Answered × World
  | .call tenantId agentId now, w =>
    let c : Call := ⟨tenantId, agentId, now, poolAt w.gate tenantId agentId⟩
    match admitStart limits w.gate c with
    | .inl admission => (some ⟨w.next, c, admission, false⟩, { w with next := w.next + 1 })
    | .inr kept => (none, { w with next := w.next + 1, waiting := w.waiting ++ [⟨w.next, c, kept⟩] })
  | .reads id result, w =>
    match Table.one (·.id == id) w.waiting with
    | none => (none, w)
    | some x =>
      let read := result.map fun ledger => (poolOfCall poolOf x.call, readDaySpend ledger x.call.now)
      let done := admitReads limits w.gate x.call x.kept read
      (some ⟨id, x.call, done.1, read.isNone⟩,
        { w with
          gate := done.2
          waiting := Table.delete (·.id == id) w.waiting
          readings := w.readings ++ readingsOf x read })

/-- An isolate that has just begun. -/
def World.empty : World := ⟨⟨[], []⟩, 0, [], []⟩

/-- What a call may be answered from: a reading of its tenant, its own, or one that was fresh where it began. -/
def Answers (w : World) (a : Answered) (r : Reading) : Prop :=
  r ∈ w.readings ∧ r.tenantId = a.call.tenantId ∧
    (r.call = a.id ∨ dayOf r.at = dayOf a.call.now ∧ a.call.now - r.at < window limits r.spend a.call.pool)

/-- A reading of the tenant stands behind a hit. -/
def Behind (w : World) (tenantId : Str) (hit : Hit) (r : Reading) : Prop :=
  r ∈ w.readings ∧ r.tenantId.1 = tenantId ∧ r.at = hit.at ∧ r.spend = hit.spend ∧ hit.spend.day = dayOf hit.at

/-- What the caches hold, and what the calls under way keep. -/
structure Kept (w : World) : Prop where
  cache : ∀ e ∈ w.gate.cache, ∃ r, Behind w e.1 e.2 r
  pools : ∀ e ∈ w.gate.pools, ∃ t a, e.1 = poolKey t a ∧ e.2 = poolOf t a
  waiting : ∀ x ∈ w.waiting, isExempt x.call.tenantId limits = false ∧
    (x.call.pool = none ∨ x.call.pool = some (poolOfCall poolOf x.call)) ∧
    ∀ hit ∈ x.kept, fresh limits x.call hit = true ∧ ∃ r, Behind w x.call.tenantId hit r

variable {limits poolOf} {w : World}

theorem Behind.mono {w' : World} {t : Str} {hit : Hit} {r : Reading} (h : Behind w t hit r)
    (hw : ∀ r ∈ w.readings, r ∈ w'.readings) : Behind w' t hit r := ⟨hw r h.1, h.2⟩

theorem poolAt_kept (h : Kept limits poolOf w) (c : Call) (hc : c.pool = poolAt w.gate c.tenantId c.agentId) :
    c.pool = none ∨ c.pool = some (poolOfCall poolOf c) := by
  rw [hc, poolOfCall]
  cases c.agentId with
  | none => exact .inr rfl
  | some a =>
    cases hget : w.gate.pools.get (poolKey c.tenantId a) with
    | none => exact .inl hget
    | some pool =>
      obtain ⟨t', a', hkey, hpool⟩ := h.pools _ (Map.get_mem hget)
      obtain ⟨rfl, rfl⟩ := poolKey_injective hkey
      exact .inr (hget.trans (congrArg some hpool))

/-- A fresh hit answers a call: the reading behind it is of the call's day and young enough. -/
theorem answers_fresh {a : Answered} {hit : Hit} {r : Reading} (hr : Behind w a.call.tenantId hit r)
    (hf : fresh limits a.call hit = true) : Answers limits w a r := by
  obtain ⟨hmem, htenant, hat, hspend, hday⟩ := hr
  obtain ⟨hfday, hfat⟩ := of_decide_eq_true hf
  refine ⟨hmem, Subtype.ext htenant, .inr ⟨?_, ?_⟩⟩
  · rw [hat, ← hday, hfday]
  · rw [hat, hspend]
    exact hfat

/-- How a call that is answered where it begins is answered. -/
theorem admitStart_inl {g : SpendGate} {c : Call} {admission : Admission} (h : admitStart limits g c = .inl admission) :
    isExempt c.tenantId limits = true ∧ admission = .admitted .exempt ∨
      isExempt c.tenantId limits = false ∧ ∃ hit pool, g.cache.get c.tenantId = some hit ∧ fresh limits c hit = true ∧
        c.pool = some pool ∧ admission = judge hit.spend limits pool := by
  unfold admitStart at h
  by_cases he : isExempt c.tenantId limits = true
  · rw [if_pos he] at h
    cases h
    exact .inl ⟨he, rfl⟩
  · rw [if_neg he] at h
    refine .inr ⟨Bool.eq_false_iff.2 he, ?_⟩
    split at h
    · rename_i hit pool hhit hpool
      cases h
      obtain ⟨hget, hfresh⟩ := Option.filter_eq_some_iff.1 hhit
      exact ⟨hit, pool, hget, hfresh, hpool, rfl⟩
    · cases h

/-- What a call that reads keeps. -/
theorem admitStart_inr {g : SpendGate} {c : Call} {kept : Option Hit} (h : admitStart limits g c = .inr kept) :
    isExempt c.tenantId limits = false ∧
      ∀ hit ∈ kept, g.cache.get c.tenantId = some hit ∧ fresh limits c hit = true := by
  unfold admitStart at h
  by_cases he : isExempt c.tenantId limits = true
  · rw [if_pos he] at h
    cases h
  · rw [if_neg he] at h
    refine ⟨Bool.eq_false_iff.2 he, ?_⟩
    split at h
    · cases h
    · cases h
      intro hit hhit
      exact Option.filter_eq_some_iff.1 hhit

/-- A call's answer by the rule: exempt, or nothing was read, or the rule's on a reading it may be answered from. -/
def ByTheRule (limits : SpendLimits) (poolOf : ObjectId → ObjectId → Pool) (w : World) (a : Answered) : Prop :=
  if isExempt a.call.tenantId limits then a.admission = .admitted .exempt
  else if a.failed then a.admission = .admitted .read_failed
  else (a.call.pool = none ∨ a.call.pool = some (poolOfCall poolOf a.call)) ∧
    ∃ r, Answers limits w a r ∧ a.admission = judge r.spend limits (poolOfCall poolOf a.call)

theorem call_answered (h : Kept limits poolOf w) {t : ObjectId} {agent : Option ObjectId} {now : Int} {a : Answered}
    (ha : (Step.exec limits poolOf (.call t agent now) w).1 = some a) :
    ByTheRule limits poolOf (Step.exec limits poolOf (.call t agent now) w).2 a ∧ a.failed = false ∧
      a.admission ≠ .admitted .read_failed := by
  set c : Call := ⟨t, agent, now, poolAt w.gate t agent⟩ with hc
  cases hstart : admitStart limits w.gate c with
  | inr kept =>
    simp only [Step.exec, ← hc, hstart] at ha
    cases ha
  | inl admission =>
    simp only [Step.exec, ← hc, hstart] at ha ⊢
    cases ha
    rcases admitStart_inl hstart with ⟨he, rfl⟩ | ⟨he, hit, pool, hget, hfresh, hpool, rfl⟩
    · exact ⟨by rw [ByTheRule, if_pos he], rfl, by simp⟩
    · have hright := poolAt_kept h c rfl
      have hpool' : pool = poolOfCall poolOf c := by
        rcases hright with hnone | hsome
        · rw [hpool] at hnone
          cases hnone
        · rw [hpool] at hsome
          exact Option.some.inj hsome
      obtain ⟨r, hr⟩ := h.cache _ (Map.get_mem hget)
      refine ⟨?_, rfl, fun hfailed => ?_⟩
      · rw [ByTheRule, if_neg (by rw [he]; simp), if_neg (by simp)]
        refine ⟨hright, r, answers_fresh (hr.mono fun _ hm => hm) hfresh, ?_⟩
        rw [hr.2.2.2.1, ← hpool']
      · cases judge_why hfailed

theorem reads_answered (h : Kept limits poolOf w) {id : Nat} {result : Option DaySpend} {a : Answered}
    (ha : (Step.exec limits poolOf (.reads id result) w).1 = some a) :
    ByTheRule limits poolOf (Step.exec limits poolOf (.reads id result) w).2 a ∧
      (a.failed = true → (Step.exec limits poolOf (.reads id result) w).2.gate = w.gate) ∧
      (a.admission = .admitted .read_failed ↔ a.failed = true) := by
  cases hone : Table.one (·.id == id) w.waiting with
  | none =>
    simp only [Step.exec, hone] at ha
    cases ha
  | some x =>
    obtain ⟨he, hpool, hkept⟩ := h.waiting x (Table.one_mem hone)
    have hid : x.id = id := beq_iff_eq.1 (Table.one_some hone :)
    simp only [Step.exec, hone] at ha ⊢
    cases ha
    cases result with
    | none =>
      have hrule : ByTheRule limits poolOf { w with
          waiting := Table.delete (·.id == id) w.waiting
          readings := w.readings ++ readingsOf x none } ⟨id, x.call, .admitted .read_failed, true⟩ := by
        rw [ByTheRule, he]
        rfl
      exact ⟨hrule, fun _ => rfl, fun _ => rfl, fun _ => rfl⟩
    | some ledger =>
      have hpool' : x.call.pool.getD (poolOfCall poolOf x.call) = poolOfCall poolOf x.call := by
        rcases hpool with hp | hp <;> rw [hp] <;> rfl
      refine ⟨?_, fun hfailed => (by cases hfailed), fun hfailed => ?_, fun hfailed => (by cases hfailed)⟩
      · rw [ByTheRule, he]
        refine ⟨hpool, ?_⟩
        simp only [Option.map_some, admitReads, hpool', readingsOf]
        cases hk : x.kept with
        | none =>
          refine ⟨⟨x.call.tenantId, x.id, x.call.now, readDaySpend ledger x.call.now⟩, ⟨?_, rfl, .inl hid⟩, rfl⟩
          exact List.mem_append_right _ (List.mem_singleton.2 rfl)
        | some hit =>
          obtain ⟨hfresh, r, hr⟩ := hkept hit hk
          refine ⟨r, answers_fresh (hr.mono fun _ hm => List.mem_append_left _ hm) hfresh, ?_⟩
          rw [hr.2.2.2.1]
          rfl
      · cases judge_why hfailed

/-! ### The caches, step after step -/

theorem mem_cache (limits : SpendLimits) {g : SpendGate} {c : Call} {kept : Option Hit} {pool : Pool} {spend : DaySpend} {e : Str × Hit}
    (h : e ∈ (admitReads limits g c kept (some (pool, spend))).2.cache) :
    e ∈ g.cache ∨ kept = none ∧ e = (c.tenantId.1, ⟨c.now, spend⟩) := by
  have hclear : ∀ {e : Str × Hit}, e ∈ (if 10000 ≤ g.cache.length then [] else g.cache) → e ∈ g.cache := by
    intro e he
    split at he
    · cases he
    · exact he
  simp only [admitReads] at h
  cases kept with
  | some hit => exact .inl (hclear h)
  | none =>
    rcases Map.mem_set h with h | h
    · exact .inl (hclear h)
    · exact .inr ⟨rfl, h⟩

theorem mem_pools (limits : SpendLimits) {g : SpendGate} {c : Call} {kept : Option Hit} {pool : Pool} {spend : DaySpend} {e : Str × Pool}
    (h : e ∈ (admitReads limits g c kept (some (pool, spend))).2.pools) :
    e ∈ g.pools ∨ ∃ a, c.agentId = some a ∧ e = (poolKey c.tenantId a, c.pool.getD pool) := by
  have hclear : ∀ {e : Str × Pool}, e ∈ (if 10000 ≤ g.pools.length then [] else g.pools) → e ∈ g.pools := by
    intro e he
    split at he
    · cases he
    · exact he
  simp only [admitReads] at h
  cases ha : c.agentId with
  | none =>
    rw [ha] at h
    exact .inl (hclear h)
  | some a =>
    rw [ha] at h
    rcases Map.mem_set h with h | h
    · exact .inl (hclear h)
    · exact .inr ⟨a, rfl, h⟩

theorem kept_call (h : Kept limits poolOf w) (t : ObjectId) (agent : Option ObjectId) (now : Int) :
    Kept limits poolOf (Step.exec limits poolOf (.call t agent now) w).2 := by
  set c : Call := ⟨t, agent, now, poolAt w.gate t agent⟩ with hc
  cases hstart : admitStart limits w.gate c with
  | inl admission =>
    simp only [Step.exec, ← hc, hstart]
    exact ⟨h.cache, h.pools, h.waiting⟩
  | inr kept =>
    simp only [Step.exec, ← hc, hstart]
    obtain ⟨he, hkept⟩ := admitStart_inr hstart
    refine ⟨h.cache, h.pools, fun x hx => ?_⟩
    rcases List.mem_append.1 hx with hx | hx
    · exact h.waiting x hx
    · obtain rfl := List.mem_singleton.1 hx
      refine ⟨he, poolAt_kept h c rfl, fun hit hhit => ?_⟩
      obtain ⟨hget, hfresh⟩ := hkept hit hhit
      exact ⟨hfresh, h.cache _ (Map.get_mem hget)⟩

theorem kept_reads (h : Kept limits poolOf w) (id : Nat) (result : Option DaySpend) :
    Kept limits poolOf (Step.exec limits poolOf (.reads id result) w).2 := by
  cases hone : Table.one (·.id == id) w.waiting with
  | none =>
    simp only [Step.exec, hone]
    exact h
  | some x =>
    obtain ⟨he, hpool, hkept⟩ := h.waiting x (Table.one_mem hone)
    simp only [Step.exec, hone]
    set read := result.map fun ledger => (poolOfCall poolOf x.call, readDaySpend ledger x.call.now) with hread
    have hold : ∀ r ∈ w.readings, r ∈ w.readings ++ readingsOf x read := fun r hr => List.mem_append_left _ hr
    have hwaiting : ∀ y ∈ Table.delete (·.id == id) w.waiting, y ∈ w.waiting := fun y hy => (Table.mem_delete.1 hy).1
    have hcache : ∀ e ∈ w.gate.cache, ∃ r, Behind ⟨w.gate, w.next, w.waiting, w.readings ++ readingsOf x read⟩ e.1 e.2 r := by
      intro e hm
      obtain ⟨r, hr⟩ := h.cache e hm
      exact ⟨r, hr.mono hold⟩
    refine ⟨fun e hm => ?_, fun e hm => ?_, fun y hy => ?_⟩
    · cases result with
      | none => exact hcache e hm
      | some ledger =>
        rcases mem_cache limits hm with hm | ⟨hk, rfl⟩
        · exact hcache e hm
        · refine ⟨⟨x.call.tenantId, x.id, x.call.now, readDaySpend ledger x.call.now⟩, ?_, rfl, rfl, rfl, rfl⟩
          rw [hread, Option.map_some, readingsOf, hk]
          exact List.mem_append_right _ (List.mem_singleton.2 rfl)
    · cases result with
      | none => exact h.pools e hm
      | some ledger =>
        rcases mem_pools limits hm with hm | ⟨a, ha, rfl⟩
        · exact h.pools e hm
        · refine ⟨x.call.tenantId, a, rfl, ?_⟩
          have hright : poolOfCall poolOf x.call = poolOf x.call.tenantId a := by rw [poolOfCall, ha]
          rcases hpool with hp | hp <;> rw [hp, ← hright] <;> rfl
    · obtain ⟨hy', hp, hk⟩ := h.waiting y (hwaiting y hy)
      refine ⟨hy', hp, fun hit hhit => ?_⟩
      obtain ⟨hf, r, hr⟩ := hk hit hhit
      exact ⟨hf, r, hr.mono hold⟩

theorem kept_step (h : Kept limits poolOf w) (step : Step) : Kept limits poolOf (Step.exec limits poolOf step w).2 := by
  cases step with
  | call t agent now => exact kept_call h t agent now
  | reads id result => exact kept_reads h id result

theorem kept_empty : Kept limits poolOf World.empty :=
  ⟨fun _ h => (nomatch h), fun _ h => (nomatch h), fun _ h => (nomatch h)⟩

/-- The spend gate admits by the rule, and never on an old reading. -/
theorem gate_by_the_rule (limits : SpendLimits) (poolOf : ObjectId → ObjectId → Pool) (steps : List Step) :
    (∀ x ∈ History.turns (Step.exec limits poolOf) steps World.empty, ∀ a, x.answer = some a →
      ByTheRule limits poolOf x.after a ∧ (a.failed = true → x.after.gate = x.before.gate) ∧
        (a.admission = .admitted .read_failed ↔ a.failed = true)) ∧
    (∀ spend spend' limits', Harder spend spend' limits limits' → ∀ pool,
      (judge spend limits pool).admits = false → (judge spend' limits' pool).admits = false) ∧
    (∀ spend, NoMore (tenantLimitOf spend limits) (tenantBaseOf spend.plan spend.budget limits).usd ∧
      NoMore (onboardingTenantLimitOf spend limits) (onboardingTenantBaseOf spend.budget limits).usd) ∧
    (∀ spend other other',
      judge (spend.withTenant other) (limits.withTenant other') .onboarding = judge spend limits .onboarding ∧
        judge (other.withTenant spend) (other'.withTenant limits) .tenant = judge spend limits .tenant) ∧
    ∀ spend tenantId,
      (standing tenantId spend limits).refusing =
        (!isExempt tenantId limits && !(judge spend limits .tenant).admits) ∧
      (standing tenantId spend limits).onboardingRefusing =
        (!isExempt tenantId limits && !(judge spend limits .onboarding).admits) := by
  refine ⟨fun x hx => ?_, fun spend spend' limits' h pool => judge_monotone h, fun spend =>
    ⟨lowered_noMore _ _, lowered_noMore _ _⟩, fun spend other other' =>
    ⟨judge_onboarding spend other limits other', judge_tenant spend other limits other'⟩, fun spend tenantId => ?_⟩
  · refine History.forall_turns (I := Kept limits poolOf) (P := fun x => ∀ a, x.answer = some a →
      ByTheRule limits poolOf x.after a ∧ (a.failed = true → x.after.gate = x.before.gate) ∧
        (a.admission = .admitted .read_failed ↔ a.failed = true)) kept_empty (fun step w hw => kept_step hw step)
      (fun step w hw a ha => ?_) x hx
    cases step with
    | call t agent now =>
      obtain ⟨hrule, hfailed, hwhy⟩ := call_answered hw ha
      exact ⟨hrule, fun h => absurd h (by rw [hfailed]; simp), fun h => absurd h hwhy, fun h => absurd h (by rw [hfailed]; simp)⟩
    | reads id result => exact reads_answered hw ha
  · cases h : isExempt tenantId limits <;> simp [standing, h]

/-! ### One day of one tenant -/

/-- The deployment's defaults. -/
def defaultLimits : SpendLimits := ⟨some 5, some 3, some 10, some 2000, some 30, some 1, [js "bench"]⟩

def spentToday (usd : ℚ) : DaySpend := ⟨0, usd, usd, 0, 0, none, none, none, none, none⟩

theorem harder_spent {a b : ℚ} (h : a ≤ b) : Harder (spentToday a) (spentToday b) defaultLimits defaultLimits :=
  ⟨h, h, le_rfl, le_rfl, rfl, trivial, trivial, NoMore.refl _, NoMore.refl _, trivial, NoMore.refl _, NoMore.refl _,
    NoMore.refl _, NoMore.refl _, NoMore.refl _, NoMore.refl _⟩

/-- Two calls at once, the second from what the first one read; refused at the limit, and over it. -/
theorem gate_by_the_rule_eval :
    let t : ObjectId := ⟨js "t", by decide⟩
    let steps : List Step := [.call t none 0, .reads 0 (some (spentToday 5)), .call t none 4000]
    let turns := History.turns (Step.exec defaultLimits fun _ _ => .tenant) steps World.empty
    (∀ x ∈ turns, ∀ a, x.answer = some a → ByTheRule defaultLimits (fun _ _ => .tenant) x.after a) ∧
      turns.map (fun x => x.answer.map fun a => a.admission.admits) = [none, some false, some false] ∧
      (judge (spentToday 6) defaultLimits .tenant).admits = false :=
  ⟨fun x hx a ha => ((gate_by_the_rule defaultLimits (fun _ _ => .tenant) _).1 x hx a ha).1, by decide +kernel,
    (gate_by_the_rule defaultLimits (fun _ _ => .tenant) []).2.1 _ _ _ (harder_spent (by norm_num)) .tenant
      (by decide : (judge (spentToday 5) defaultLimits .tenant).admits = false)⟩

end Run

end Antiproton.Spend
