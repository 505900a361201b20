import Mathlib.Data.Rat.Floor
import Antiproton.Core.Js

/-!
# Antiproton.Spend.Limits

The rule a tenant's day is judged by (`cf/src/spend-limit.ts`). A limit is a figure in dollars or `null`, no limit, and a
dollar figure is a finite number, kept exactly. `noMore` orders limits, `null` the greatest.

* `refuses_iff`: what a pool's calls are refused by.
* `judge_monotone`: more spent, or any limit lowered, refuses no less.
* `lowered_noMore`: an admin's override only lowers.
* `judge_onboarding`, `judge_tenant`: neither pool's verdict reads the other's figures.
-/

namespace Antiproton.Spend

open Js

inductive Plan where
  | free
  | pro
deriving DecidableEq, Repr

inductive Pool where
  | tenant
  | onboarding
deriving DecidableEq, Repr

inductive LimitSource where
  | raft
  | plan
  | default
  | override
deriving DecidableEq, Repr

/-- The deployment's figures, each before an admin's override. -/
structure SpendLimits where
  tenantUsd : Option ℚ
  freeUsd : Option ℚ
  proUsd : Option ℚ
  platformUsd : Option ℚ
  onboardingUsd : Option ℚ
  onboardingTenantUsd : Option ℚ
  exempt : List Str
deriving DecidableEq

/-- The budgets Raft last sent, in whole cents a day. -/
structure RaftBudget where
  dailyCents : Option Nat
  onboardingDailyCents : Option Nat
deriving DecidableEq

/-- An admin's override; `none` in it is no limit. -/
structure LimitRow where
  limitUsd : Option ℚ
deriving DecidableEq

/-- A reading of today's spend. -/
structure DaySpend where
  day : Int
  tenantUsd : ℚ
  platformUsd : ℚ
  onboardingUsd : ℚ
  tenantOnboardingUsd : ℚ
  override : Option LimitRow
  plan : Option Plan
  onboardingOverride : Option LimitRow
  onboardingTenantOverride : Option LimitRow
  budget : Option RaftBudget
deriving DecidableEq

structure SourcedLimit where
  usd : Option ℚ
  source : LimitSource
deriving DecidableEq

inductive Why where
  | exempt
  | under
  | read_failed
deriving DecidableEq, Repr

inductive LimitName where
  | platform
  | tenant
  | onboarding
  | onboarding_tenant
deriving DecidableEq, Repr

inductive Admission where
  | admitted (why : Why)
  | refuse (limit : LimitName) (text : Str)
deriving DecidableEq

def Admission.admits : Admission → Bool
  | .admitted _ => true
  | .refuse _ _ => false

/-! ## The texts of a refusal -/

/-- `n.toFixed(2)`, of a number below 10^21. -/
def toFixed2 (n : ℚ) : Str :=
  let cents := ⌊|n| * 100 + 1 / 2⌋.toNat
  (if n < 0 then js "-" else []) ++ js (toString (cents / 100)) ++ js "." ++ js (toString (cents % 100 / 10)) ++
    js (toString (cents % 10))

def PLATFORM_LIMIT_TEXT : Str := js "Platform daily usage limit reached; resets at 00:00 UTC."

def ONBOARDING_LIMIT_TEXT : Str := js "Onboarding daily usage limit reached; resets at 00:00 UTC."

def onboardingTenantLimitText (spentUsd limitUsd : ℚ) : Str :=
  js "This server's onboarding daily usage limit reached ($" ++ toFixed2 spentUsd ++ js " of $" ++ toFixed2 limitUsd ++
    js "); resets at 00:00 UTC."

def tenantLimitText (spentUsd limitUsd : ℚ) : Str :=
  js "Daily usage limit reached ($" ++ toFixed2 spentUsd ++ js " of $" ++ toFixed2 limitUsd ++
    js "); resets at 00:00 UTC."

/-! ## The limits -/

def lowered (base : SourcedLimit) (override : Option LimitRow) : SourcedLimit :=
  match override.bind (·.limitUsd) with
  | none => base
  | some limitUsd => if ∃ usd ∈ base.usd, usd ≤ limitUsd then base else ⟨some limitUsd, .override⟩

def tenantBaseOf (plan : Option Plan) (budget : Option RaftBudget) (limits : SpendLimits) : SourcedLimit :=
  match budget.bind (·.dailyCents) with
  | some cents => ⟨some (cents / 100), .raft⟩
  | none =>
    ⟨match plan with
      | some .pro => limits.proUsd
      | some .free => limits.freeUsd
      | none => limits.tenantUsd, .plan⟩

def onboardingTenantBaseOf (budget : Option RaftBudget) (limits : SpendLimits) : SourcedLimit :=
  match budget.bind (·.onboardingDailyCents) with
  | some cents => ⟨some (cents / 100), .raft⟩
  | none => ⟨limits.onboardingTenantUsd, .default⟩

def tenantLimitDetail (spend : DaySpend) (limits : SpendLimits) : SourcedLimit :=
  lowered (tenantBaseOf spend.plan spend.budget limits) spend.override

def tenantLimitOf (spend : DaySpend) (limits : SpendLimits) : Option ℚ := (tenantLimitDetail spend limits).usd

def onboardingLimitOf (spend : DaySpend) (limits : SpendLimits) : Option ℚ :=
  match spend.onboardingOverride with
  | some row => row.limitUsd
  | none => limits.onboardingUsd

def onboardingTenantLimitDetail (spend : DaySpend) (limits : SpendLimits) : SourcedLimit :=
  lowered (onboardingTenantBaseOf spend.budget limits) spend.onboardingTenantOverride

def onboardingTenantLimitOf (spend : DaySpend) (limits : SpendLimits) : Option ℚ :=
  (onboardingTenantLimitDetail spend limits).usd

/-- `limit !== null && spent >= limit`. -/
def reached (limit : Option ℚ) (spent : ℚ) : Bool := limit.any fun l => l ≤ spent

def platformReached (spend : DaySpend) (limits : SpendLimits) : Bool := reached limits.platformUsd spend.platformUsd

def isExempt (tenantId : Str) (limits : SpendLimits) : Bool := limits.exempt.contains tenantId

/-! ## The rule -/

def judge (spend : DaySpend) (limits : SpendLimits) (pool : Pool) : Admission :=
  match pool with
  | .onboarding =>
    if reached (onboardingLimitOf spend limits) spend.onboardingUsd then .refuse .onboarding ONBOARDING_LIMIT_TEXT
    else
      match (onboardingTenantLimitOf spend limits).filter (· ≤ spend.tenantOnboardingUsd) with
      | some share => .refuse .onboarding_tenant (onboardingTenantLimitText spend.tenantOnboardingUsd share)
      | none => .admitted .under
  | .tenant =>
    if platformReached spend limits then .refuse .platform PLATFORM_LIMIT_TEXT
    else
      match (tenantLimitOf spend limits).filter (· ≤ spend.tenantUsd) with
      | some tenantLimit => .refuse .tenant (tenantLimitText spend.tenantUsd tenantLimit)
      | none => .admitted .under

/-- Where a tenant stands today, for the tenant to see. -/
structure Standing where
  spentUsd : ℚ
  limitUsd : Option ℚ
  limitSource : Option LimitSource
  plan : Option Plan
  onboardingUsd : ℚ
  onboardingLimitUsd : Option ℚ
  onboardingLimitSource : Option LimitSource
  onboardingRefusing : Bool
  exempt : Bool
  platformLimitReached : Bool
  refusing : Bool
deriving DecidableEq

def standing (tenantId : Str) (spend : DaySpend) (limits : SpendLimits) : Standing :=
  let exempt := isExempt tenantId limits
  let own := tenantLimitDetail spend limits
  let share := onboardingTenantLimitDetail spend limits
  { spentUsd := spend.tenantUsd
    limitUsd := if exempt then none else own.usd
    limitSource := if exempt then none else some own.source
    plan := spend.plan
    onboardingUsd := spend.tenantOnboardingUsd
    onboardingLimitUsd := if exempt then none else share.usd
    onboardingLimitSource := if exempt then none else some share.source
    onboardingRefusing := if exempt then false else !(judge spend limits .onboarding).admits
    exempt
    platformLimitReached := platformReached spend limits
    refusing := if exempt then false else !(judge spend limits .tenant).admits }

def NEAR_FRACTION : ℚ := 8 / 10

def nearLimit (limit : Option ℚ) (spent : ℚ) : Bool := limit.any fun l => l * NEAR_FRACTION ≤ spent

/-- Whether a reading is within the fraction of a limit that judges a pool. -/
def nearPool (spend : DaySpend) (limits : SpendLimits) : Pool → Bool
  | .onboarding =>
    nearLimit (onboardingLimitOf spend limits) spend.onboardingUsd ||
      nearLimit (onboardingTenantLimitOf spend limits) spend.tenantOnboardingUsd
  | .tenant =>
    nearLimit limits.platformUsd spend.platformUsd || nearLimit (tenantLimitOf spend limits) spend.tenantUsd

/-- A pool not known yet asks both. -/
def near (spend : DaySpend) (limits : SpendLimits) : Option Pool → Bool
  | none => nearPool spend limits .tenant || nearPool spend limits .onboarding
  | some pool => nearPool spend limits pool

/-! ## The order of limits -/

section Order

/-- A limit that allows no more than another: `null` allows the most. -/
def NoMore (a b : Option ℚ) : Prop := ∀ y ∈ b, ∃ x ∈ a, x ≤ y

theorem NoMore.refl (a : Option ℚ) : NoMore a a := fun y hy => ⟨y, hy, le_rfl⟩

theorem NoMore.trans {a b c : Option ℚ} (hab : NoMore a b) (hbc : NoMore b c) : NoMore a c := by
  intro z hz
  obtain ⟨y, hy, hyz⟩ := hbc z hz
  obtain ⟨x, hx, hxy⟩ := hab y hy
  exact ⟨x, hx, hxy.trans hyz⟩

theorem reached_mono {a b : Option ℚ} {s t : ℚ} (hlimit : NoMore a b) (hspent : s ≤ t) (h : reached b s = true) :
    reached a t = true := by
  cases b with
  | none => cases h
  | some y =>
    obtain ⟨x, hx, hxy⟩ := hlimit y rfl
    cases hx
    exact decide_eq_true ((hxy.trans (of_decide_eq_true h)).trans hspent)

variable {base base' : SourcedLimit} {o o' : Option LimitRow}

/-- An admin's override never allows more. -/
theorem lowered_noMore (base : SourcedLimit) (o : Option LimitRow) : NoMore (lowered base o).usd base.usd := by
  unfold lowered
  split
  · exact NoMore.refl _
  · rename_i limitUsd _
    split
    · exact NoMore.refl _
    · rename_i h
      intro y hy
      refine ⟨limitUsd, rfl, ?_⟩
      by_contra hlt
      exact h ⟨y, hy, le_of_not_ge hlt⟩

/-- Nor does it allow more than what it says. -/
theorem lowered_override (base : SourcedLimit) (o : Option LimitRow) :
    NoMore (lowered base o).usd (o.bind (·.limitUsd)) := by
  unfold lowered
  split
  · rename_i h
    rw [h]
    exact fun y hy => nomatch hy
  · rename_i limitUsd h
    rw [h]
    split
    · rename_i hbase
      intro y hy
      cases hy
      exact hbase
    · exact NoMore.refl _

/-- It is the one or the other. -/
theorem lowered_cases (base : SourcedLimit) (o : Option LimitRow) :
    (lowered base o).usd = base.usd ∨ (lowered base o).usd = o.bind (·.limitUsd) := by
  unfold lowered
  split
  · exact .inl rfl
  · rename_i limitUsd h
    split
    · exact .inl rfl
    · exact .inr h.symm

theorem lowered_mono (hbase : NoMore base'.usd base.usd) (ho : NoMore (o'.bind (·.limitUsd)) (o.bind (·.limitUsd))) :
    NoMore (lowered base' o').usd (lowered base o).usd := by
  rcases lowered_cases base o with h | h
  · rw [h]
    exact (lowered_noMore base' o').trans hbase
  · rw [h]
    exact (lowered_override base' o').trans ho

end Order

/-! ## The rule, moved -/

section Judge

variable {spend spend' : DaySpend} {limits limits' : SpendLimits}

theorem filter_reached (limit : Option ℚ) (spent : ℚ) : (limit.filter (· ≤ spent)).isSome = reached limit spent := by
  cases limit with
  | none => rfl
  | some l => by_cases h : l ≤ spent <;> simp [reached, Option.filter, h]

/-- What a pool's calls are refused by. -/
theorem refuses_eq (spend : DaySpend) (limits : SpendLimits) (pool : Pool) :
    (!(judge spend limits pool).admits) =
      match pool with
      | .onboarding => reached (onboardingLimitOf spend limits) spend.onboardingUsd ||
          reached (onboardingTenantLimitOf spend limits) spend.tenantOnboardingUsd
      | .tenant => platformReached spend limits || reached (tenantLimitOf spend limits) spend.tenantUsd := by
  cases pool with
  | tenant =>
    rw [← filter_reached (tenantLimitOf spend limits), judge]
    dsimp only
    cases platformReached spend limits with
    | true => rfl
    | false => cases (tenantLimitOf spend limits).filter (· ≤ spend.tenantUsd) <;> rfl
  | onboarding =>
    rw [← filter_reached (onboardingTenantLimitOf spend limits), judge]
    dsimp only
    cases reached (onboardingLimitOf spend limits) spend.onboardingUsd with
    | true => rfl
    | false => cases (onboardingTenantLimitOf spend limits).filter (· ≤ spend.tenantOnboardingUsd) <;> rfl

/-- What the rule admits is under the limits. -/
theorem judge_why {pool : Pool} {why : Why} (h : judge spend limits pool = .admitted why) : why = .under := by
  cases pool with
  | tenant =>
    rw [judge] at h
    cases hp : platformReached spend limits with
    | true =>
      rw [hp, if_pos rfl] at h
      cases h
    | false =>
      rw [hp, if_neg (by simp)] at h
      split at h <;> cases h
      rfl
  | onboarding =>
    rw [judge] at h
    cases hp : reached (onboardingLimitOf spend limits) spend.onboardingUsd with
    | true =>
      rw [hp, if_pos rfl] at h
      cases h
    | false =>
      rw [hp, if_neg (by simp)] at h
      split at h <;> cases h
      rfl

/-- An override row in the same place that allows no more. -/
def RowNoMore : Option LimitRow → Option LimitRow → Prop
  | some a, some b => NoMore a.limitUsd b.limitUsd
  | none, none => True
  | _, _ => False

/-- A budget in the same place that is no larger. -/
def CentsNoMore : Option Nat → Option Nat → Prop
  | some a, some b => a ≤ b
  | none, none => True
  | _, _ => False

/-- No figure is spent less of, and no limit, wherever its figure comes from, allows more. An override of a tenant's
limit only ever lowers it, so one set where there was none is a limit lowered too. -/
structure Harder (spend spend' : DaySpend) (limits limits' : SpendLimits) : Prop where
  tenantUsd : spend.tenantUsd ≤ spend'.tenantUsd
  platformUsd : spend.platformUsd ≤ spend'.platformUsd
  onboardingUsd : spend.onboardingUsd ≤ spend'.onboardingUsd
  tenantOnboardingUsd : spend.tenantOnboardingUsd ≤ spend'.tenantOnboardingUsd
  plan : spend'.plan = spend.plan
  dailyCents : CentsNoMore (spend'.budget.bind (·.dailyCents)) (spend.budget.bind (·.dailyCents))
  onboardingDailyCents :
    CentsNoMore (spend'.budget.bind (·.onboardingDailyCents)) (spend.budget.bind (·.onboardingDailyCents))
  override : NoMore (spend'.override.bind (·.limitUsd)) (spend.override.bind (·.limitUsd))
  onboardingTenantOverride : NoMore (spend'.onboardingTenantOverride.bind (·.limitUsd))
    (spend.onboardingTenantOverride.bind (·.limitUsd))
  onboardingOverride : RowNoMore spend'.onboardingOverride spend.onboardingOverride
  tenantLimit : NoMore limits'.tenantUsd limits.tenantUsd
  freeLimit : NoMore limits'.freeUsd limits.freeUsd
  proLimit : NoMore limits'.proUsd limits.proUsd
  platformLimit : NoMore limits'.platformUsd limits.platformUsd
  onboardingLimit : NoMore limits'.onboardingUsd limits.onboardingUsd
  onboardingTenantLimit : NoMore limits'.onboardingTenantUsd limits.onboardingTenantUsd

theorem cents_noMore {a b : Nat} (h : a ≤ b) : NoMore (some ((a : ℚ) / 100)) (some ((b : ℚ) / 100)) := by
  intro y hy
  cases hy
  refine ⟨_, rfl, ?_⟩
  have hab : (a : ℚ) ≤ b := by exact_mod_cast h
  exact div_le_div_of_nonneg_right hab (by norm_num)

theorem tenantLimitOf_mono (h : Harder spend spend' limits limits') :
    NoMore (tenantLimitOf spend' limits') (tenantLimitOf spend limits) := by
  refine lowered_mono ?_ h.override
  have hcents := h.dailyCents
  unfold tenantBaseOf
  rw [h.plan]
  cases hnew : spend'.budget.bind (·.dailyCents) with
  | some a =>
    cases hold : spend.budget.bind (·.dailyCents) with
    | some b =>
      rw [hnew, hold] at hcents
      exact cents_noMore hcents
    | none =>
      rw [hnew, hold] at hcents
      exact hcents.elim
  | none =>
    cases hold : spend.budget.bind (·.dailyCents) with
    | some b =>
      rw [hnew, hold] at hcents
      exact hcents.elim
    | none =>
      cases spend.plan with
      | none => exact h.tenantLimit
      | some plan =>
        cases plan with
        | free => exact h.freeLimit
        | pro => exact h.proLimit

theorem onboardingTenantLimitOf_mono (h : Harder spend spend' limits limits') :
    NoMore (onboardingTenantLimitOf spend' limits') (onboardingTenantLimitOf spend limits) := by
  refine lowered_mono ?_ h.onboardingTenantOverride
  have hcents := h.onboardingDailyCents
  unfold onboardingTenantBaseOf
  cases hnew : spend'.budget.bind (·.onboardingDailyCents) with
  | some a =>
    cases hold : spend.budget.bind (·.onboardingDailyCents) with
    | some b =>
      rw [hnew, hold] at hcents
      exact cents_noMore hcents
    | none =>
      rw [hnew, hold] at hcents
      exact hcents.elim
  | none =>
    cases hold : spend.budget.bind (·.onboardingDailyCents) with
    | some b =>
      rw [hnew, hold] at hcents
      exact hcents.elim
    | none => exact h.onboardingTenantLimit

theorem onboardingLimitOf_mono (h : Harder spend spend' limits limits') :
    NoMore (onboardingLimitOf spend' limits') (onboardingLimitOf spend limits) := by
  have hrow := h.onboardingOverride
  unfold onboardingLimitOf
  cases hnew : spend'.onboardingOverride with
  | some a =>
    cases hold : spend.onboardingOverride with
    | some b =>
      rw [hnew, hold] at hrow
      exact hrow
    | none =>
      rw [hnew, hold] at hrow
      exact hrow.elim
  | none =>
    cases hold : spend.onboardingOverride with
    | some b =>
      rw [hnew, hold] at hrow
      exact hrow.elim
    | none => exact h.onboardingLimit

/-- More spent, or a limit lowered, never admits what was refused. -/
theorem judge_monotone (h : Harder spend spend' limits limits') {pool : Pool}
    (hrefused : (judge spend limits pool).admits = false) : (judge spend' limits' pool).admits = false := by
  have hbefore := refuses_eq spend limits pool
  rw [hrefused, Bool.not_false] at hbefore
  rw [← Bool.not_eq_true', refuses_eq]
  cases pool with
  | tenant =>
    rcases Bool.or_eq_true_iff.1 hbefore.symm with hreached | hreached
    · exact Bool.or_eq_true_iff.2 (.inl (reached_mono h.platformLimit h.platformUsd hreached))
    · exact Bool.or_eq_true_iff.2 (.inr (reached_mono (tenantLimitOf_mono h) h.tenantUsd hreached))
  | onboarding =>
    rcases Bool.or_eq_true_iff.1 hbefore.symm with hreached | hreached
    · exact Bool.or_eq_true_iff.2 (.inl (reached_mono (onboardingLimitOf_mono h) h.onboardingUsd hreached))
    · exact Bool.or_eq_true_iff.2 (.inr (reached_mono (onboardingTenantLimitOf_mono h) h.tenantOnboardingUsd hreached))

/-- The figures and limits of the tenant's own pool and the platform's, as another reading has them. -/
def DaySpend.withTenant (spend other : DaySpend) : DaySpend :=
  { spend with
    tenantUsd := other.tenantUsd
    platformUsd := other.platformUsd
    override := other.override
    plan := other.plan
    budget := some ⟨other.budget.bind (·.dailyCents), spend.budget.bind (·.onboardingDailyCents)⟩ }

def SpendLimits.withTenant (limits other : SpendLimits) : SpendLimits :=
  { limits with
    tenantUsd := other.tenantUsd
    freeUsd := other.freeUsd
    proUsd := other.proUsd
    platformUsd := other.platformUsd }

/-- An onboarding agent's verdict reads no figure or limit of the tenant's or the platform's. -/
theorem judge_onboarding (spend other : DaySpend) (limits other' : SpendLimits) :
    judge (spend.withTenant other) (limits.withTenant other') .onboarding = judge spend limits .onboarding := by
  have hbase : onboardingTenantBaseOf (spend.withTenant other).budget (limits.withTenant other') =
      onboardingTenantBaseOf spend.budget limits := by
    unfold onboardingTenantBaseOf DaySpend.withTenant
    cases spend.budget <;> rfl
  have hshare : onboardingTenantLimitOf (spend.withTenant other) (limits.withTenant other') =
      onboardingTenantLimitOf spend limits := by
    rw [onboardingTenantLimitOf, onboardingTenantLimitDetail, hbase]
    rfl
  rw [judge, hshare]
  rfl

/-- Any other agent's reads no figure or limit of onboarding. -/
theorem judge_tenant (spend other : DaySpend) (limits other' : SpendLimits) :
    judge (other.withTenant spend) (other'.withTenant limits) .tenant = judge spend limits .tenant := by
  have hbase : tenantBaseOf spend.plan (other.withTenant spend).budget (other'.withTenant limits) =
      tenantBaseOf spend.plan spend.budget limits := by
    unfold tenantBaseOf DaySpend.withTenant
    cases spend.budget <;> rfl
  have hlimit : tenantLimitOf (other.withTenant spend) (other'.withTenant limits) = tenantLimitOf spend limits := by
    rw [tenantLimitOf, tenantLimitDetail]
    exact congrArg (fun base => (lowered base spend.override).usd) hbase
  rw [judge, hlimit]
  rfl

end Judge

end Antiproton.Spend
