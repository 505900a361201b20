import Antiproton.Store.Advance

/-!
# Antiproton.Store.Budgets

A tenant's budget over any sequence of `setQuota` and `consumeQuota`, in either store.

* `consume_turn`, `set_turn` — what one call does to a tenant's use and to the start of its window.
* `spent_run`    — with no reset, what was allowed is what the use grew by.
* `budgets_hold` — within a window of one limit no more is allowed than the limit; a refusal, and a change of the limit,
  leave the use; a window starts over only when it has elapsed.
-/

namespace Antiproton.Budgets

open History StorageAdapter

/-! ## The budget in force -/

def quotaOf (tenant resource : String) (db : Db) : Option QuotaRow := Table.one (quotaKey tenant resource) db.quotas

/-- What a tenant has used of its window; nothing where it has no row. -/
def usedOf (tenant resource : String) (db : Db) : Int := ((quotaOf tenant resource db).map (·.used)).getD 0

def startOf (tenant resource : String) (db : Db) : Option Int := (quotaOf tenant resource db).map (·.windowStart)

def ownLimit (tenant resource : String) (db : Db) : Option Int := (quotaOf tenant resource db).bind (·.limitValue)

/-- The effective limit: the tenant's own, or that of `*`. -/
def limitOf (tenant resource : String) (db : Db) : Option Int :=
  (ownLimit tenant resource db).or (ownLimit "*" resource db)

/-- The effective window: the tenant's own, or that of `*` where the tenant has no limit of its own. -/
def windowOf (tenant resource : String) (db : Db) : Option Int :=
  ((quotaOf tenant resource db).bind (·.windowMs)).or
    (if (ownLimit tenant resource db).isSome then none else (quotaOf "*" resource db).bind (·.windowMs))

/-- The tenant's window has elapsed at `now`. -/
def Elapsed (tenant resource : String) (now : Int) (db : Db) : Prop :=
  ∃ w s, windowOf tenant resource db = some w ∧ startOf tenant resource db = some s ∧ w ≤ now - s

/-! ## Calls -/

/-- A change of a limit, or a consumption of an amount that is not negative. -/
def Budgeted : Call → Prop
  | .setQuota .. => True
  | .consumeQuota _ _ amount => 0 ≤ amount
  | _ => False

abbrev BudgetTurn := Turn Db (Ctx × Call) Answer

section

variable (tenant resource : String)

/-- The turn is a consumption by the tenant, answered `allowed`. -/
def Charged (x : BudgetTurn) (amount : Int) (allowed : Bool) : Prop :=
  x.act.2 = .consumeQuota tenant resource amount ∧ ∃ used limit, x.answer = .consumed ⟨allowed, used, limit⟩

/-- The turn starts the tenant's window over. -/
def Resets (x : BudgetTurn) : Prop :=
  (∃ amount, x.act.2 = .consumeQuota tenant resource amount) ∧ Elapsed tenant resource x.act.1.now x.before

/-- What the turn allowed the tenant. -/
def allowedOf (x : BudgetTurn) : Int :=
  match x.act.2, x.answer with
  | .consumeQuota t r amount, .consumed c => if t = tenant ∧ r = resource ∧ c.allowed = true then amount else 0
  | _, _ => 0

def spent (xs : List BudgetTurn) : Int := (xs.map (allowedOf tenant resource)).sum

/-- What a tenant's budget promises of a history. -/
structure Holds (xs : List BudgetTurn) : Prop where
  bounded : ∀ before window after limit, xs = before ++ window ++ after →
    (∀ x ∈ window.tail, ¬ Resets tenant resource x) →
    (∀ x ∈ window, ∀ amount, x.act.2 = .consumeQuota tenant resource amount →
      limitOf tenant resource x.before = some limit) →
    (0 ≤ limit ∨ ∃ x ∈ window, ∃ amount, Charged tenant resource x amount true) →
    spent tenant resource window ≤ limit
  refused : ∀ x ∈ xs, ∀ amount, Charged tenant resource x amount false →
    usedOf tenant resource x.after = usedOf tenant resource x.before ∨
      Resets tenant resource x ∧ usedOf tenant resource x.after = 0
  reset : ∀ x ∈ xs, ∀ s, startOf tenant resource x.before = some s →
    (startOf tenant resource x.after ≠ some s ∨ usedOf tenant resource x.after < usedOf tenant resource x.before) →
    ∃ amount w, x.act.2 = .consumeQuota tenant resource amount ∧ windowOf tenant resource x.before = some w ∧
      w ≤ x.act.1.now - s
  set : ∀ x ∈ xs, ∀ t r limit windowMs, x.act.2 = .setQuota t r limit windowMs →
    usedOf tenant resource x.after = usedOf tenant resource x.before

end

/-! ## One call -/

theorem quotaKey_other {t r t' r' : String} (h : ¬ (t = t' ∧ r = r')) (row : QuotaRow)
    (hrow : quotaKey t r row = true) : quotaKey t' r' row = false := by
  simp only [quotaKey, Bool.and_eq_true, beq_iff_eq] at hrow
  rw [quotaKey, Bool.eq_false_iff]
  intro hboth
  simp only [Bool.and_eq_true, beq_iff_eq] at hboth
  exact h ⟨hrow.1.symm.trans hboth.1, hrow.2.symm.trans hboth.2⟩

section

variable {tenant resource : String}

/-- A quota row written under its key. -/
def putQuota (row : QuotaRow) (merge : QuotaRow → QuotaRow) (db : Db) : Db :=
  let quotas := Table.upsert (quotaKey row.tenantId row.resource) row merge db.quotas
  { db with quotas := quotas }

variable (tenant resource) in
/-- The tenant's row is then the one written, or the one there was, changed. -/
theorem quotaOf_putQuota (row : QuotaRow) (merge : QuotaRow → QuotaRow)
    (hm : ∀ q, (merge q).tenantId = q.tenantId ∧ (merge q).resource = q.resource) (db : Db) :
    quotaOf tenant resource (putQuota row merge db) =
      if row.tenantId = tenant ∧ row.resource = resource then
        some (((quotaOf tenant resource db).map merge).getD row)
      else quotaOf tenant resource db := by
  have hkey : ∀ t r q, quotaKey t r (merge q) = quotaKey t r q := by
    intro t r q
    rw [quotaKey, quotaKey, (hm q).1, (hm q).2]
  split
  · rename_i h
    obtain ⟨rfl, rfl⟩ := h
    exact Table.one_upsert_self (by simp [quotaKey]) (hkey _ _) db.quotas
  · rename_i h
    refine Table.one_upsert_other ?_ (hkey _ _) (fun q hq => ?_) db.quotas
    · exact quotaKey_other h row (by simp [quotaKey])
    · exact quotaKey_other (fun h' => h ⟨h'.1.symm, h'.2.symm⟩) q hq

/-- A consumption: what it answers, and what it leaves of the tenant's row and of the others. -/
structure Consumption (tenant resource : String) (amount now : Int) (db : Db) (c : Consumed) (db' : Db) (base : Int) :
    Prop where
  elapsed : Elapsed tenant resource now db → base = 0 ∧ startOf tenant resource db' = some now
  running : ¬ Elapsed tenant resource now db →
    base = usedOf tenant resource db ∧ startOf tenant resource db' = some ((startOf tenant resource db).getD now)
  allowed : c.allowed = true → usedOf tenant resource db' = base + amount ∧
    ∀ limit, limitOf tenant resource db = some limit → base + amount ≤ limit
  refused : c.allowed = false → usedOf tenant resource db' = base
  others : ∀ t r, ¬ (tenant = t ∧ resource = r) → quotaOf t r db' = quotaOf t r db

theorem limitOf_eq (db : Db) :
    ((quotaOf tenant resource db).bind (·.limitValue)).or
      ((if ((quotaOf tenant resource db).bind (·.limitValue)).isSome then none else quotaOf "*" resource db).bind
        (·.limitValue)) = limitOf tenant resource db := by
  unfold limitOf ownLimit
  cases (quotaOf tenant resource db).bind (·.limitValue) with
  | none => rfl
  | some l => rfl

theorem windowOf_eq (db : Db) :
    ((quotaOf tenant resource db).bind (·.windowMs)).or
      ((if ((quotaOf tenant resource db).bind (·.limitValue)).isSome then none else quotaOf "*" resource db).bind
        (·.windowMs)) = windowOf tenant resource db := by
  unfold windowOf ownLimit
  cases (quotaOf tenant resource db).bind (·.limitValue) with
  | none => rfl
  | some l => rfl

/-- Whether the window, counted from now where there is none yet, has elapsed. -/
def overdue (tenant resource : String) (now : Int) (db : Db) : Bool :=
  (windowOf tenant resource db).any fun w => decide (w ≤ now - (startOf tenant resource db).getD now)

def baseOf (tenant resource : String) (now : Int) (db : Db) : Int :=
  if overdue tenant resource now db then 0 else usedOf tenant resource db

def restart (tenant resource : String) (now : Int) (db : Db) : Int :=
  if overdue tenant resource now db then now else (startOf tenant resource db).getD now

/-- What `consumeQuota` leaves, written with what is in force. -/
theorem consumeQuota_eq (ctx : Ctx) (tenant resource : String) (amount : Int) (db : Db) :
    ∃ limit windowMs, Sqlite.consumeQuota ctx tenant resource amount db =
      let base := baseOf tenant resource ctx.now db
      let allowed := !(limitOf tenant resource db).any fun l => decide (l < base + amount)
      let used := if allowed then base + amount else base
      let start := restart tenant resource ctx.now db
      (⟨allowed, used, limitOf tenant resource db⟩,
        putQuota ⟨tenant, resource, limit, windowMs, used, start⟩ (fun q => { q with used := used, windowStart := start })
          db) := by
  refine ⟨(quotaOf tenant resource db).bind (·.limitValue), (quotaOf tenant resource db).bind (·.windowMs), ?_⟩
  unfold Sqlite.consumeQuota
  simp only [show Sqlite.quotaRow = quotaOf from rfl, limitOf_eq, windowOf_eq]
  change (if (limitOf tenant resource db).any (fun l => decide (l < baseOf tenant resource ctx.now db + amount)) then _
    else _) = _
  split
  · rename_i h
    rw [h]
    rfl
  · rename_i h
    rw [Bool.not_eq_true] at h
    rw [h]
    rfl

/-- What a turn does to a tenant's use and to the start of its window. -/
inductive Effect (tenant resource : String) (x : BudgetTurn) : Prop
  | charge (amount base : Int) (hact : x.act.2 = .consumeQuota tenant resource amount)
      (hanswer : ∃ used limit, x.answer = .consumed ⟨true, used, limit⟩)
      (hwithin : ∀ limit, limitOf tenant resource x.before = some limit → base + amount ≤ limit)
      (hused : usedOf tenant resource x.after = base + amount)
      (hstart : startOf tenant resource x.after = some (restart tenant resource x.act.1.now x.before))
      (hbase : base = baseOf tenant resource x.act.1.now x.before)
  | refuse (amount : Int) (hact : x.act.2 = .consumeQuota tenant resource amount)
      (hanswer : ∃ used limit, x.answer = .consumed ⟨false, used, limit⟩)
      (hused : usedOf tenant resource x.after = baseOf tenant resource x.act.1.now x.before)
      (hstart : startOf tenant resource x.after = some (restart tenant resource x.act.1.now x.before))
  | other (hact : ∀ amount, x.act.2 ≠ .consumeQuota tenant resource amount)
      (hused : usedOf tenant resource x.after = usedOf tenant resource x.before)
      (hstart : ∀ s, startOf tenant resource x.before = some s → startOf tenant resource x.after = some s)

variable (tenant resource) in
theorem consume_effect (ctx : Ctx) (t r : String) (amount : Int) (db : Db) :
    Effect tenant resource ⟨db, (ctx, .consumeQuota t r amount),
      .consumed (Sqlite.consumeQuota ctx t r amount db).1, (Sqlite.consumeQuota ctx t r amount db).2⟩ := by
  obtain ⟨limit, windowMs, heq⟩ := consumeQuota_eq ctx t r amount db
  rw [heq]
  dsimp only
  generalize hallowed : (!(limitOf t r db).any fun l => decide (l < baseOf t r ctx.now db + amount)) = allowed
  generalize hused : (if allowed = true then baseOf t r ctx.now db + amount else baseOf t r ctx.now db) = used
  have hrow := quotaOf_putQuota tenant resource
    ⟨t, r, limit, windowMs, used, restart t r ctx.now db⟩
    (fun q => { q with used := used, windowStart := restart t r ctx.now db }) (fun _ => ⟨rfl, rfl⟩) db
  by_cases hsame : t = tenant ∧ r = resource
  · obtain ⟨rfl, rfl⟩ := hsame
    rw [if_pos ⟨rfl, rfl⟩] at hrow
    have hrow' : ∀ db', quotaOf t r db' = some (((quotaOf t r db).map fun q =>
        { q with used := used, windowStart := restart t r ctx.now db }).getD
          ⟨t, r, limit, windowMs, used, restart t r ctx.now db⟩) →
        usedOf t r db' = used ∧ startOf t r db' = some (restart t r ctx.now db) := by
      intro db' h
      rw [usedOf, startOf, h]
      cases quotaOf t r db with
      | none => exact ⟨rfl, rfl⟩
      | some q => exact ⟨rfl, rfl⟩
    obtain ⟨hu, hs⟩ := hrow' _ hrow
    cases allowed with
    | true =>
      refine .charge amount _ rfl ⟨_, _, rfl⟩ ?_ (hu.trans hused.symm) hs rfl
      intro l hl
      rw [hl, Option.any_some, Bool.not_eq_true', decide_eq_false_iff_not] at hallowed
      exact Int.not_lt.1 hallowed
    | false => exact .refuse amount rfl ⟨_, _, rfl⟩ (hu.trans hused.symm) hs
  · rw [if_neg hsame] at hrow
    refine .other (fun n h => ?_) ?_ ?_
    · cases h
      exact hsame ⟨rfl, rfl⟩
    · rw [usedOf, hrow]
      rfl
    · intro s hs
      rw [startOf, hrow]
      exact hs

variable (tenant resource) in
theorem set_effect (ctx : Ctx) (t r : String) (limit windowMs : Option Int) (db : Db) :
    Effect tenant resource ⟨db, (ctx, .setQuota t r limit windowMs), .unit,
      Sqlite.setQuota ctx t r limit windowMs db⟩ := by
  have hrow := quotaOf_putQuota tenant resource ⟨t, r, limit, windowMs, 0, ctx.now⟩
    (fun q => { q with limitValue := limit, windowMs := windowMs }) (fun _ => ⟨rfl, rfl⟩) db
  have hrow : quotaOf tenant resource (Sqlite.setQuota ctx t r limit windowMs db) = _ := hrow
  refine .other (fun _ h => nomatch h) ?_ ?_
  · rw [usedOf, usedOf, hrow]
    split
    · cases quotaOf tenant resource db with
      | none => rfl
      | some q => rfl
    · rfl
  · intro s hs
    rw [startOf] at hs ⊢
    rw [hrow]
    split
    · cases hq : quotaOf tenant resource db with
      | none =>
        rw [hq] at hs
        cases hs
      | some q =>
        rw [hq] at hs
        exact hs
    · exact hs

variable (tenant resource) in
/-- Every budgeted call of either store has one of the three effects. -/
theorem turn_effect (kind : StoreKind) (c : Ctx × Call) (db : Db) (hc : Budgeted c.2) :
    Effect tenant resource (turn kind.exec c db) := by
  obtain ⟨ctx, call⟩ := c
  cases call with
  | setQuota t r limit windowMs =>
    cases kind with
    | sqlite => exact set_effect tenant resource ctx t r limit windowMs db
    | durableObject => exact set_effect tenant resource ctx t r limit windowMs db
  | consumeQuota t r amount =>
    cases kind with
    | sqlite => exact consume_effect tenant resource ctx t r amount db
    | durableObject =>
      have h := consume_effect tenant resource ctx t r amount db
      rw [consumeQuota_same] at h
      exact h
  | _ => cases hc

/-! ## One turn -/

theorem baseOf_running {now : Int} {db : Db} (h : ¬ Elapsed tenant resource now db) :
    baseOf tenant resource now db = usedOf tenant resource db := by
  unfold baseOf
  split
  · rename_i hover
    obtain ⟨w, hw, hle⟩ : ∃ w, windowOf tenant resource db = some w ∧ w ≤ now - (startOf tenant resource db).getD now := by
      simpa only [overdue, Option.any_eq_true, decide_eq_true_eq] using hover
    cases hq : quotaOf tenant resource db with
    | none => simp [usedOf, hq]
    | some q =>
      have hs : startOf tenant resource db = some q.windowStart := by rw [startOf, hq]; rfl
      rw [hs, Option.getD_some] at hle
      exact (h ⟨w, q.windowStart, hw, hs, hle⟩).elim
  · rfl

theorem restart_running {now s : Int} {db : Db} (h : ¬ Elapsed tenant resource now db)
    (hs : startOf tenant resource db = some s) : restart tenant resource now db = s := by
  unfold restart
  split
  · rename_i hover
    obtain ⟨w, hw, hle⟩ : ∃ w, windowOf tenant resource db = some w ∧ w ≤ now - (startOf tenant resource db).getD now := by
      simpa only [overdue, Option.any_eq_true, decide_eq_true_eq] using hover
    rw [hs, Option.getD_some] at hle
    exact (h ⟨w, s, hw, hs, hle⟩).elim
  · rw [hs, Option.getD_some]

theorem baseOf_nonneg (now : Int) {db : Db} (h : 0 ≤ usedOf tenant resource db) :
    0 ≤ baseOf tenant resource now db := by
  unfold baseOf
  split
  · exact Int.le_refl 0
  · exact h

variable {x : BudgetTurn}

theorem allowedOf_charge {amount : Int} (h : Charged tenant resource x amount true) :
    allowedOf tenant resource x = amount := by
  obtain ⟨hact, used, limit, hanswer⟩ := h
  rw [allowedOf, hact, hanswer]
  exact if_pos ⟨rfl, rfl, rfl⟩

theorem allowedOf_uncharged (h : ∀ amount, ¬ Charged tenant resource x amount true) : allowedOf tenant resource x = 0 := by
  unfold allowedOf
  split
  · rename_i c hcall hanswer
    obtain ⟨allowed, used, limit⟩ := c
    rw [if_neg]
    rintro ⟨rfl, rfl, hallowed⟩
    exact h _ ⟨hcall, used, limit, by rw [hanswer, show allowed = true from hallowed]⟩
  · rfl

variable (tenant resource) in
theorem allowedOf_nonneg (h : Budgeted x.act.2) : 0 ≤ allowedOf tenant resource x := by
  unfold allowedOf
  split
  · rename_i hcall _
    rw [hcall] at h
    split
    · exact h
    · exact Int.le_refl 0
  · exact Int.le_refl 0

/-- With its window running, a turn adds to the use what it allowed. -/
theorem Effect.running (h : Effect tenant resource x) (hno : ¬ Resets tenant resource x) :
    usedOf tenant resource x.after = usedOf tenant resource x.before + allowedOf tenant resource x := by
  cases h with
  | charge amount base hact hanswer _ hused _ hbase =>
    have hrun := baseOf_running fun he => hno ⟨⟨amount, hact⟩, he⟩
    rw [hused, hbase, hrun, allowedOf_charge ⟨hact, hanswer⟩]
  | refuse amount hact hanswer hused =>
    have hrun := baseOf_running fun he => hno ⟨⟨amount, hact⟩, he⟩
    obtain ⟨used, limit, hanswer⟩ := hanswer
    have hzero : allowedOf tenant resource x = 0 := by
      refine allowedOf_uncharged fun n hn => ?_
      obtain ⟨-, used', limit', hanswer'⟩ := hn
      rw [hanswer] at hanswer'
      cases hanswer'
    rw [hused, hrun, hzero, Int.add_zero]
  | other hact hused =>
    rw [hused, allowedOf_uncharged fun n hn => hact n hn.1, Int.add_zero]

/-- A turn leaves at least what it allowed in use. -/
theorem Effect.nonneg (h : Effect tenant resource x) (hbefore : 0 ≤ usedOf tenant resource x.before)
    (hamount : Budgeted x.act.2) :
    0 ≤ allowedOf tenant resource x ∧ allowedOf tenant resource x ≤ usedOf tenant resource x.after := by
  cases h with
  | charge amount base hact hanswer _ hused _ hbase =>
    rw [hact] at hamount
    have hbase0 := baseOf_nonneg x.act.1.now hbefore
    rw [allowedOf_charge ⟨hact, hanswer⟩, hused]
    have hamount : 0 ≤ amount := hamount
    omega
  | refuse amount hact hanswer hused =>
    have hbase0 := baseOf_nonneg x.act.1.now hbefore
    obtain ⟨used, limit, hanswer⟩ := hanswer
    rw [allowedOf_uncharged, hused]
    · exact ⟨Int.le_refl 0, hbase0⟩
    · intro n hn
      obtain ⟨-, used', limit', hanswer'⟩ := hn
      rw [hanswer] at hanswer'
      cases hanswer'
  | other hact hused =>
    rw [allowedOf_uncharged fun n hn => hact n hn.1, hused]
    exact ⟨Int.le_refl 0, hbefore⟩

/-- A charge stays within the limit in force. -/
theorem Effect.within (h : Effect tenant resource x) {amount limit : Int} (hcharged : Charged tenant resource x amount true)
    (hlimit : limitOf tenant resource x.before = some limit) : usedOf tenant resource x.after ≤ limit := by
  obtain ⟨hact, used, l, hanswer⟩ := hcharged
  cases h with
  | charge n base hact' _ hwithin hused =>
    rw [hused]
    exact hwithin limit hlimit
  | refuse _ _ hanswer' =>
    obtain ⟨_, _, hanswer'⟩ := hanswer'
    rw [hanswer] at hanswer'
    cases hanswer'
  | other hact' => exact (hact' amount hact).elim

/-! ## A window -/

variable {kind : StoreKind} {acts : List (Ctx × Call)} {db : Db}

theorem spent_cons (x : BudgetTurn) (xs : List BudgetTurn) :
    spent tenant resource (x :: xs) = allowedOf tenant resource x + spent tenant resource xs := by
  simp [spent]

/-- With no reset, what was allowed is what the use grew by. -/
theorem spent_run (hacts : ∀ a ∈ acts, Budgeted a.2)
    (hno : ∀ x ∈ turns kind.exec acts db, ¬ Resets tenant resource x) :
    usedOf tenant resource (final kind.exec acts db) =
      usedOf tenant resource db + spent tenant resource (turns kind.exec acts db) := by
  induction acts generalizing db with
  | nil => simp [spent]
  | cons a acts ih =>
    have heffect := turn_effect tenant resource kind a db (hacts a List.mem_cons_self)
    have hnow := heffect.running (hno _ List.mem_cons_self)
    have hrest := ih (fun b hb => hacts b (List.mem_cons_of_mem _ hb)) fun x hx => hno x (List.mem_cons_of_mem _ hx)
    rw [final_cons, hrest, turns_cons, spent_cons]
    have hnow : usedOf tenant resource (kind.exec a db).2 =
      usedOf tenant resource db + allowedOf tenant resource (turn kind.exec a db) := hnow
    rw [hnow]
    omega

theorem spent_uncharged {xs : List BudgetTurn} (h : ∀ x ∈ xs, ∀ amount, ¬ Charged tenant resource x amount true) :
    spent tenant resource xs = 0 := by
  induction xs with
  | nil => rfl
  | cons x xs ih =>
    rw [spent_cons, allowedOf_uncharged (h x List.mem_cons_self), ih fun y hy => h y (List.mem_cons_of_mem _ hy)]
    rfl

/-- With no reset and one limit, the use is within it once anything was allowed. -/
theorem within_run {limit : Int} (hacts : ∀ a ∈ acts, Budgeted a.2)
    (hno : ∀ x ∈ turns kind.exec acts db, ¬ Resets tenant resource x)
    (hlimit : ∀ x ∈ turns kind.exec acts db, ∀ amount, x.act.2 = .consumeQuota tenant resource amount →
      limitOf tenant resource x.before = some limit)
    (hcharged : ∃ x ∈ turns kind.exec acts db, ∃ amount, Charged tenant resource x amount true) :
    usedOf tenant resource (final kind.exec acts db) ≤ limit := by
  induction acts generalizing db with
  | nil =>
    obtain ⟨x, hx, -⟩ := hcharged
    cases hx
  | cons a acts ih =>
    have hrestActs : ∀ b ∈ acts, Budgeted b.2 := fun b hb => hacts b (List.mem_cons_of_mem _ hb)
    have hrestNo : ∀ x ∈ turns kind.exec acts (kind.exec a db).2, ¬ Resets tenant resource x :=
      fun x hx => hno x (List.mem_cons_of_mem _ hx)
    rw [final_cons]
    by_cases hlater : ∃ x ∈ turns kind.exec acts (kind.exec a db).2, ∃ amount, Charged tenant resource x amount true
    · exact ih hrestActs hrestNo (fun x hx => hlimit x (List.mem_cons_of_mem _ hx)) hlater
    · obtain ⟨x, hx, amount, hx'⟩ := hcharged
      rcases List.mem_cons.1 hx with rfl | hx
      · have heffect := turn_effect tenant resource kind a db (hacts a List.mem_cons_self)
        have hnow := heffect.within hx' (hlimit _ List.mem_cons_self amount hx'.1)
        rw [spent_run hrestActs hrestNo, spent_uncharged fun y hy n hn => hlater ⟨y, hy, n, hn⟩, Int.add_zero]
        exact hnow
      · exact absurd ⟨x, hx, amount, hx'⟩ hlater

variable (kind) in
/-- The use of a tenant is never negative. -/
theorem used_nonneg (hacts : ∀ a ∈ acts, Budgeted a.2) (hdb : 0 ≤ usedOf tenant resource db) :
    0 ≤ usedOf tenant resource (final kind.exec acts db) := by
  refine final_permitted (I := fun db => 0 ≤ usedOf tenant resource db) hdb (fun a db h ha => ?_) hacts
  obtain ⟨h1, h2⟩ := (turn_effect tenant resource kind a db ha).nonneg h ha
  exact Int.le_trans h1 h2

end

/-- Budgets hold over any sequence of `setQuota` and `consumeQuota` of a store that starts without quotas. -/
theorem budgets_hold (kind : StoreKind) (tenant resource : String) (acts : List (Ctx × Call))
    (hacts : ∀ a ∈ acts, Budgeted a.2) (db : Db) (hdb : db.quotas = []) :
    Holds tenant resource (turns kind.exec acts db) := by
  have hzero : 0 ≤ usedOf tenant resource db := by
    rw [usedOf, quotaOf, hdb]
    exact Int.le_refl 0
  have heffect : ∀ x ∈ turns kind.exec acts db, Effect tenant resource x :=
    forall_turns_guarded (I := fun _ => True) trivial (fun _ _ _ _ => trivial)
      (fun a db _ ha => turn_effect tenant resource kind a db ha) hacts
  have hbudgeted : ∀ x ∈ turns kind.exec acts db, Budgeted x.act.2 :=
    forall_turns_guarded (I := fun _ => True) trivial (fun _ _ _ _ => trivial) (fun _ _ _ ha => ha) hacts
  refine ⟨?_, ?_, ?_, ?_⟩
  · intro before window after limit hcut hno hlimit hany
    rw [List.append_assoc] at hcut
    obtain ⟨first, rest, rfl, -, hrest⟩ := split_turns hcut
    obtain ⟨mid, last, rfl, rfl, -⟩ := split_turns hrest.symm
    have hfirst : ∀ a ∈ first, Budgeted a.2 := fun a ha => hacts a (List.mem_append_left _ ha)
    have hmid : ∀ a ∈ mid, Budgeted a.2 := fun a ha =>
      hacts a (List.mem_append_right _ (List.mem_append_left _ ha))
    have hpositive := used_nonneg kind hfirst hzero
    generalize final kind.exec first db = db' at *
    cases mid with
    | nil =>
      rcases hany with hpos | ⟨x, hx, -⟩
      · exact hpos
      · cases hx
    | cons a mid =>
      -- The first turn may start the window; the others go on with it.
      have hstart := turn_effect tenant resource kind a db' (hmid a List.mem_cons_self)
      have hrestActs : ∀ b ∈ mid, Budgeted b.2 := fun b hb => hmid b (List.mem_cons_of_mem _ hb)
      have hrun := spent_run hrestActs hno
      have hbegun := (hstart.nonneg hpositive (hmid a List.mem_cons_self)).2
      have hbegun : allowedOf tenant resource (turn kind.exec a db') ≤ usedOf tenant resource (kind.exec a db').2 := hbegun
      rw [turns_cons, spent_cons]
      by_cases hlater : ∃ x ∈ turns kind.exec mid (kind.exec a db').2, ∃ amount, Charged tenant resource x amount true
      · have := within_run hrestActs hno (fun x hx => hlimit x (List.mem_cons_of_mem _ hx)) hlater
        omega
      · rw [spent_uncharged fun y hy n hn => hlater ⟨y, hy, n, hn⟩, Int.add_zero]
        by_cases hnow : ∃ amount, Charged tenant resource (turn kind.exec a db') amount true
        · obtain ⟨amount, hnow⟩ := hnow
          have hwithin := hstart.within hnow (hlimit _ List.mem_cons_self amount hnow.1)
          exact Int.le_trans hbegun hwithin
        · rw [allowedOf_uncharged fun n hn => hnow ⟨n, hn⟩]
          rcases hany with hpos | ⟨x, hx, n, hn⟩
          · exact hpos
          · rcases List.mem_cons.1 hx with rfl | hx
            · exact absurd ⟨n, hn⟩ hnow
            · exact absurd ⟨x, hx, n, hn⟩ hlater
  · intro x hx amount hcharged
    cases heffect x hx with
    | charge _ _ _ hanswer =>
      obtain ⟨_, _, hanswer⟩ := hanswer
      obtain ⟨-, _, _, hanswer'⟩ := hcharged
      rw [hanswer] at hanswer'
      cases hanswer'
    | refuse n hact _ hused =>
      by_cases helapsed : Elapsed tenant resource x.act.1.now x.before
      · obtain ⟨w, s, hw, hs, hle⟩ := helapsed
        refine .inr ⟨⟨⟨n, hact⟩, w, s, hw, hs, hle⟩, hused.trans ?_⟩
        rw [baseOf, if_pos]
        simp only [overdue, hw, hs, Option.any_some, Option.getD_some, decide_eq_true_eq]
        exact hle
      · exact .inl (hused.trans (baseOf_running helapsed))
    | other hact => exact (hact amount hcharged.1).elim
  · intro x hx s hs hchanged
    have hreset : Resets tenant resource x := by
      by_contra hno
      have hrun := (heffect x hx).running hno
      have hstay : startOf tenant resource x.after = some s := by
        cases heffect x hx with
        | charge n _ hact _ _ _ hstart => rw [hstart, restart_running (fun he => hno ⟨⟨n, hact⟩, he⟩) hs]
        | refuse n hact _ _ hstart => rw [hstart, restart_running (fun he => hno ⟨⟨n, hact⟩, he⟩) hs]
        | other _ _ hstart => exact hstart s hs
      rcases hchanged with hmoved | hless
      · exact hmoved hstay
      · have := allowedOf_nonneg tenant resource (hbudgeted x hx)
        omega
    obtain ⟨⟨n, hact⟩, w, s', hw, hs', hle⟩ := hreset
    rw [hs, Option.some.injEq] at hs'
    exact ⟨n, w, hact, hw, hs' ▸ hle⟩
  · intro x hx t r limit windowMs hact
    cases heffect x hx with
    | charge _ _ hact' =>
      rw [hact] at hact'
      cases hact'
    | refuse _ hact' =>
      rw [hact] at hact'
      cases hact'
    | other _ hused => exact hused

/-- A tenant under the budget of `*`, then under its own, and then under that of `*` again. -/
theorem budgets_hold_changed :
    Holds "acme" "steps" (turns StoreKind.sqlite.exec
      [(⟨0, fun _ => ""⟩, .setQuota "*" "steps" (some 10) (some 1000)),
        (⟨1, fun _ => ""⟩, .consumeQuota "acme" "steps" 8),
        (⟨2, fun _ => ""⟩, .setQuota "acme" "steps" (some 9) none),
        (⟨3, fun _ => ""⟩, .consumeQuota "acme" "steps" 2),
        (⟨4, fun _ => ""⟩, .setQuota "acme" "steps" none none),
        (⟨1001, fun _ => ""⟩, .consumeQuota "acme" "steps" 2)] Db.empty) :=
  budgets_hold .sqlite "acme" "steps" _ (by
    intro a ha
    simp only [List.mem_cons, List.not_mem_nil, or_false] at ha
    rcases ha with rfl | rfl | rfl | rfl | rfl | rfl
    · trivial
    · exact (by decide : (0 : Int) ≤ 8)
    · trivial
    · exact (by decide : (0 : Int) ≤ 2)
    · trivial
    · exact (by decide : (0 : Int) ≤ 2)) Db.empty rfl

end Antiproton.Budgets
