import Antiproton.Usage.Bills

/-!
# Antiproton.Usage.Folds

What a fold does to a bill. A run of `foldUsage` moves the hours of some days, each to the start of its day: the rows
stay under their headings, and a cost moves exactly where an hour is priced otherwise than the start of its day.

* `Folded.trans`, `folded_foldRun`: what a run leaves, whatever becomes of its requests.
* `alike_of_pricedAlike`: a run that moves only hours priced as their days are leaves alike rows.
* `fold_keeps_bills`: it is these runs that keep every bill, for every quantity.
-/

namespace Antiproton
namespace Usage

open Js Process

/-- A request of a fold run alone: each is applied as often, and answered or not, as the next fate has it. -/
def foldExec (o : UsageOp) (w : List D1Fate × UsageD1) : o.Ans × (List D1Fate × UsageD1) :=
  let r := usageExec o (w.1.headD ⟨1, true⟩) { UsageWorld.fresh with d1 := w.2 }
  (r.1, (w.1.tail, r.2.d1))

/-- The ledger after a run of `foldUsage`. -/
def foldRun (now keepDays : Int) (maxDays : Nat) (fates : List D1Fate) (d : UsageD1) : UsageD1 :=
  ((foldUsage now keepDays maxDays).alone foldExec (fates, d)).2.2

/-- A key at another time. -/
def BucketKey.on (start : Int) (k : BucketKey) : BucketKey := { k with start := start }

/-- A key at the start of its day. -/
def BucketKey.atDay (k : BucketKey) : BucketKey := k.on (dayStart k.start)

/-! ## What a run leaves -/

/-- The hours of some days are in the daily table, at the start of their days. -/
structure Folded (days : List Int) (d d' : UsageD1) : Prop where
  hourly : d'.hourly = d.hourly.filter fun r => !decide (dayStart r.1.start ∈ days)
  weigh : ∀ w : BucketKey → ℚ, Ledger.weigh w d'.daily =
    Ledger.weigh w d.daily + Ledger.weigh (fun k => if dayStart k.start ∈ days then w k.atDay else 0) d.hourly
  keys : ∀ k, k ∈ d'.daily.map Prod.fst ↔
    k ∈ d.daily.map Prod.fst ∨ ∃ r ∈ d.hourly, dayStart r.1.start ∈ days ∧ r.1.atDay = k

theorem Folded.refl (d : UsageD1) : Folded [] d d where
  hourly := by simp
  weigh w := by simp [Ledger.weigh]
  keys k := by simp

theorem Folded.trans {days days' : List Int} {d d' d'' : UsageD1} (h : Folded days d d')
    (h' : Folded days' d' d'') : Folded (days ++ days') d d'' where
  hourly := by
    rw [h'.hourly, h.hourly, List.filter_filter]
    refine List.filter_congr fun r _ => ?_
    simp [Bool.and_comm]
  weigh w := by
    rw [h'.weigh, h.weigh, h.hourly, Ledger.weigh_filter _ fun k : BucketKey => !decide (dayStart k.start ∈ days), add_assoc,
      ← Ledger.weigh_add_weights]
    congr 1
    refine Ledger.weigh_congr fun k _ => ?_
    by_cases hk : dayStart k.start ∈ days
    · simp [hk]
    · simp [hk]
  keys k := by
    rw [h'.keys, h.keys, h.hourly, or_assoc]
    refine or_congr_right ?_
    constructor
    · rintro (⟨r, hr, hday, hk⟩ | ⟨r, hr, hday, hk⟩)
      · exact ⟨r, hr, List.mem_append.2 (.inl hday), hk⟩
      · exact ⟨r, (List.mem_filter.1 hr).1, List.mem_append.2 (.inr hday), hk⟩
    · rintro ⟨r, hr, hday, hk⟩
      by_cases hd : dayStart r.1.start ∈ days
      · exact .inl ⟨r, hr, hd, hk⟩
      · refine .inr ⟨r, List.mem_filter.2 ⟨hr, by simpa using hd⟩, ?_, hk⟩
        exact (List.mem_append.1 hday).resolve_left hd

theorem foldDay_daily (day : Int) (d : UsageD1) : (foldDay day d).2.daily =
    Ledger.post (Ledger.group (fun r => BucketKey.on day r.1) (·.2) (d.hourly.filter fun r => inDay day r.1)) d.daily :=
  rfl

/-- One day folded. -/
theorem folded_foldDay {day : Int} (hd : dayMs ∣ day) (d : UsageD1) : Folded [day] d (foldDay day d).2 := by
  have hin : ∀ k : BucketKey, inDay day k = decide (dayStart k.start ∈ [day]) := by
    intro k
    rw [Bool.eq_iff_iff, decide_eq_true_iff, List.mem_singleton, dayStart_eq_iff hd]
    simp [inDay]
  have hat : ∀ k : BucketKey, dayStart k.start ∈ [day] → k.on day = k.atDay := by
    intro k hk
    rw [BucketKey.atDay, List.mem_singleton.1 hk]
  refine ⟨?_, fun w => ?_, fun k => ?_⟩
  · exact List.filter_congr fun r _ => by rw [hin]
  · rw [foldDay_daily, Ledger.weigh_post, Ledger.weigh_regroup, Ledger.weigh_filter]
    congr 1
    refine Ledger.weigh_congr fun k _ => ?_
    simp only [hin, decide_eq_true_eq]
    split
    · rename_i hk
      rw [hat k hk]
    · rfl
  · rw [foldDay_daily, Ledger.mem_keys_post_iff, Ledger.mem_keys_group]
    refine or_congr_right ?_
    simp only [List.mem_filter, hin, decide_eq_true_eq, and_assoc]
    refine exists_congr fun r => and_congr_right fun _ => and_congr_right fun hk => ?_
    rw [hat r.1 hk]

/-- One day folded so often. -/
theorem folded_times {day : Int} (hd : dayMs ∣ day) (n : Nat) (d : UsageD1) :
    Folded (List.replicate n day) d (applyTimes (foldDay day) n d).2 := by
  induction n with
  | zero => exact .refl d
  | succ n ih =>
    rw [List.replicate_succ']
    exact ih.trans (folded_foldDay hd _)

/-! ## The days of a run -/

/-- The days a run folds of those it found: it stops at the first whose answer is lost. -/
def foldedOf : List D1Fate → List Int → List Int
  | _, [] => []
  | fates, day :: rest =>
    let fate := fates.headD ⟨1, true⟩
    List.replicate fate.times day ++ if fate.answered && decide (0 < fate.times) then foldedOf fates.tail rest else []

/-- A fold of one day, and what comes after its answer. -/
theorem alone_foldDay {A : Type} (day : Int) (f : Nat → UsageProg A) (fates : List D1Fate) (d : UsageD1) :
    (ask (.foldDay day) rfl >>= f).alone foldExec (fates, d) =
      match answerOf (fates.headD ⟨1, true⟩) (applyTimes (foldDay day) (fates.headD ⟨1, true⟩).times d).1 with
      | .ok moved =>
        (f moved).alone foldExec (fates.tail, (applyTimes (foldDay day) (fates.headD ⟨1, true⟩).times d).2)
      | .error e => (.error e, (fates.tail, (applyTimes (foldDay day) (fates.headD ⟨1, true⟩).times d).2)) := by
  rw [Prog.alone_bind]
  simp only [ask, Prog.alone, foldExec, usageExec]
  cases answerOf (fates.headD ⟨1, true⟩) (applyTimes (foldDay day) (fates.headD ⟨1, true⟩).times d).1 with
  | ok moved => rfl
  | error e => rfl

theorem folded_foldDays {days : List Int} (hdays : ∀ day ∈ days, dayMs ∣ day) (fates : List D1Fate) (d : UsageD1) :
    Folded (foldedOf fates days) d ((foldDays days).alone foldExec (fates, d)).2.2 := by
  induction days generalizing fates d with
  | nil => exact .refl d
  | cons day rest ih =>
    have hone := folded_times (hdays day List.mem_cons_self) (fates.headD ⟨1, true⟩).times d
    have hrest := fun d => ih (fun x hx => hdays x (List.mem_cons_of_mem _ hx)) fates.tail d
    rw [foldDays, foldedOf, alone_foldDay]
    generalize fates.headD ⟨1, true⟩ = fate at hone ⊢
    obtain ⟨times, answered⟩ := fate
    cases answered with
    | false =>
      simp only [answerOf, Bool.false_and, Bool.false_eq_true, if_false, List.append_nil]
      exact hone
    | true =>
      cases times with
      | zero => simpa [answerOf, applyTimes] using hone
      | succ n =>
        refine hone.trans ?_
        simp only [answerOf, applyTimes, Bool.true_and, Nat.succ_pos, decide_true, if_true]
        have hleft := hrest (foldDay day (applyTimes (foldDay day) n d).2).2
        rw [Prog.alone_bind]
        cases hrun : (foldDays rest).alone foldExec (fates.tail, (foldDay day (applyTimes (foldDay day) n d).2).2) with
        | mk answer w =>
          rw [hrun] at hleft
          cases answer with
          | ok hours => exact hleft
          | error e => exact hleft

theorem dvd_of_oldDays {cutoff : Int} {maxDays : Nat} {d : UsageD1} {day : Int} (h : day ∈ oldDays cutoff maxDays d) :
    dayMs ∣ day := by
  have hmem := List.mem_of_mem_take h
  rw [List.mem_insertionSort, List.mem_dedup] at hmem
  obtain ⟨r, -, rfl⟩ := List.mem_map.1 hmem
  exact Dvd.intro_left _ rfl

/-- The days a run of `foldUsage` folds: none where the list of days is lost. -/
def foldedDays (now keepDays : Int) (maxDays : Nat) (fates : List D1Fate) (d : UsageD1) : List Int :=
  if (fates.headD ⟨1, true⟩).answered then
    foldedOf fates.tail (oldDays (now / dayMs * dayMs - keepDays * dayMs) maxDays d)
  else []

theorem folded_foldRun (now keepDays : Int) (maxDays : Nat) (fates : List D1Fate) (d : UsageD1) :
    Folded (foldedDays now keepDays maxDays fates d) d (foldRun now keepDays maxDays fates d) := by
  have hall : ∀ day ∈ oldDays (now / dayMs * dayMs - keepDays * dayMs) maxDays d, dayMs ∣ day :=
    fun _ => dvd_of_oldDays
  have hdays := folded_foldDays hall fates.tail d
  unfold foldedDays foldRun foldUsage
  rw [Prog.alone_bind]
  simp only [ask, Prog.alone, foldExec, usageExec, answerOf]
  cases (fates.headD ⟨1, true⟩).answered with
  | false => exact .refl d
  | true =>
    simp only [if_true]
    cases hrun : (foldDays (oldDays (now / dayMs * dayMs - keepDays * dayMs) maxDays d)).alone foldExec
        (fates.tail, d) with
    | mk answer w =>
      rw [hrun] at hdays
      simp only [Prog.ofExcept, Prog.alone]
      rw [Prog.alone_bind, hrun]
      cases answer with
      | ok hours => exact hdays
      | error e => exact hdays

/-! ## Bills before and after -/

/-- The hours a run took out of `usage_hourly`. -/
def movedHours (d d' : UsageD1) : List BucketKey :=
  (d.hourly.map Prod.fst).filter fun k => decide (k ∉ d'.hourly.map Prod.fst)

/-- A window holds the days of these hours whole. -/
def WholeDays (since until_ : Int) (d d' : UsageD1) : Prop :=
  ∀ k ∈ movedHours d d', since ≤ dayStart k.start ∧ dayStart k.start + dayMs ≤ until_

/-- Each of these hours is charged as the start of its day is. -/
def PricedAlike (prices : List UsagePrice) (d d' : UsageD1) : Prop :=
  ∀ k ∈ movedHours d d', charged prices k = charged prices k.atDay

/-- The same rows, of whatever quantities. -/
def SameRows (d e : UsageD1) : Prop :=
  e.hourly.map Prod.fst = d.hourly.map Prod.fst ∧ e.daily.map Prod.fst = d.daily.map Prod.fst

/-- No bill over a window that holds the folded days whole is another after the run. -/
def BillsKept (prices : List UsagePrice) (provisioned : List ProvisionedAgent) (d d' : UsageD1) : Prop :=
  ∀ since until_, WholeDays since until_ d d' → ∀ bucket,
    (readUsageCosts prices provisioned since until_ bucket d').map TenantCosts.bill =
        (readUsageCosts prices provisioned since until_ bucket d).map TenantCosts.bill ∧
      ∀ tenantId byAgent, (readTenantCosts prices provisioned tenantId since until_ bucket byAgent d').bill =
        (readTenantCosts prices provisioned tenantId since until_ bucket byAgent d).bill

section Moved

variable {prices : List UsagePrice} {days : List Int} {d d' : UsageD1} {since until_ : Int}

theorem Folded.mem_movedHours (h : Folded days d d') {k : BucketKey} :
    k ∈ movedHours d d' ↔ k ∈ d.hourly.map Prod.fst ∧ dayStart k.start ∈ days := by
  simp only [movedHours, List.mem_filter, decide_eq_true_eq]
  refine and_congr_right fun hk => ?_
  rw [h.hourly]
  constructor
  · intro hgone
    by_contra hday
    obtain ⟨r, hr, rfl⟩ := List.mem_map.1 hk
    exact hgone (List.mem_map_of_mem (List.mem_filter.2 ⟨hr, by simpa using hday⟩))
  · intro hday hstill
    obtain ⟨r, hr, rfl⟩ := List.mem_map.1 hstill
    have hnot := (List.mem_filter.1 hr).2
    simp [hday] at hnot

/-- An hour and its day's start are both in a window that holds the day whole. -/
theorem inWindow_of_whole {k : BucketKey} (hw : since ≤ dayStart k.start ∧ dayStart k.start + dayMs ≤ until_) :
    inWindow since until_ k = true ∧ inWindow since until_ k.atDay = true := by
  have hday := (dayStart_eq_iff (Dvd.intro_left _ rfl) : dayStart k.start = dayStart k.start ↔ _).1 rfl
  simp only [dayMs] at hw hday
  simp only [inWindow, BucketKey.atDay, BucketKey.on, Bool.and_eq_true]
  refine ⟨⟨?_, ?_⟩, ?_, ?_⟩
  all_goals
    apply decide_eq_true
    omega

theorem heading_atDay (k : BucketKey) : heading k.atDay = heading k := by
  simp only [heading, BucketKey.atDay, BucketKey.on, dayStart_dayStart]

theorem add_both_sides {a b c x y : ℚ} (h : a + b = x + y) : a + (c + b) = x + c + y := by linarith

/-- What a run adds to a cost: for each hour it moved, the difference of the two prices. -/
theorem Folded.filed (h : Folded days d d') (hw : WholeDays since until_ d d') (p : Heading → Bool) :
    filed prices p (windowRows since until_ d') = filed prices p (windowRows since until_ d) +
      Ledger.weigh (fun k => if dayStart k.start ∈ days ∧ p (heading k) = true then
        charged prices k.atDay - charged prices k else 0) d.hourly := by
  unfold Usage.filed windowRows
  rw [Ledger.weigh_filter, Ledger.weigh_filter, Ledger.weigh_append, Ledger.weigh_append, h.weigh, h.hourly,
    Ledger.weigh_filter _ fun k : BucketKey => !decide (dayStart k.start ∈ days)]
  refine add_both_sides ?_
  rw [← Ledger.weigh_add_weights, ← Ledger.weigh_add_weights]
  refine Ledger.weigh_congr fun k hk => ?_
  by_cases hday : dayStart k.start ∈ days
  · obtain ⟨hin, hin'⟩ := inWindow_of_whole (hw k (h.mem_movedHours.2 ⟨hk, hday⟩))
    by_cases hp : p (heading k) = true
    · simp [hday, hin, hin', heading_atDay, hp]
    · simp [hday, heading_atDay, hp]
  · simp [hday]

/-- A run leaves rows under the headings that had some. -/
theorem Folded.anyFiled (h : Folded days d d') (hw : WholeDays since until_ d d') (p : Heading → Bool) :
    anyFiled p (windowRows since until_ d') ↔ anyFiled p (windowRows since until_ d) := by
  have hmoved : ∀ r ∈ d.hourly, dayStart r.1.start ∈ days →
      inWindow since until_ r.1 = true ∧ inWindow since until_ r.1.atDay = true := fun r hr hday =>
    inWindow_of_whole (hw r.1 (h.mem_movedHours.2 ⟨List.mem_map_of_mem hr, hday⟩))
  simp only [Usage.anyFiled, windowRows, List.mem_filter, List.mem_append]
  constructor
  · rintro ⟨r, ⟨hr | hr, hin⟩, hp⟩
    · rw [h.hourly] at hr
      exact ⟨r, ⟨.inl (List.mem_filter.1 hr).1, hin⟩, hp⟩
    · rcases (h.keys r.1).1 (List.mem_map_of_mem hr) with hk | ⟨r', hr', hday, hk⟩
      · obtain ⟨r', hr', hk⟩ := List.mem_map.1 hk
        exact ⟨r', ⟨.inr hr', hk ▸ hin⟩, hk ▸ hp⟩
      · rw [← hk, heading_atDay] at hp
        exact ⟨r', ⟨.inl hr', (hmoved r' hr' hday).1⟩, hp⟩
  · have hdaily : ∀ k, k ∈ d'.daily.map Prod.fst → inWindow since until_ k = true → p (heading k) = true →
        ∃ r, ((r ∈ d'.hourly ∨ r ∈ d'.daily) ∧ inWindow since until_ r.1 = true) ∧ p (heading r.1) = true := by
      intro k hk hin hp
      obtain ⟨r, hr, rfl⟩ := List.mem_map.1 hk
      exact ⟨r, ⟨.inr hr, hin⟩, hp⟩
    rintro ⟨r, ⟨hr | hr, hin⟩, hp⟩
    · by_cases hday : dayStart r.1.start ∈ days
      · rw [← heading_atDay] at hp
        exact hdaily _ ((h.keys _).2 (.inr ⟨r, hr, hday, rfl⟩)) (hmoved r hr hday).2 hp
      · refine ⟨r, ⟨.inl ?_, hin⟩, hp⟩
        rw [h.hourly]
        exact List.mem_filter.2 ⟨hr, by simpa using hday⟩
    · exact hdaily _ ((h.keys _).2 (.inl (List.mem_map_of_mem hr))) hin hp

/-- A run that moves only hours priced as the starts of their days leaves alike rows. -/
theorem Folded.alike (h : Folded days d d') (hw : WholeDays since until_ d d') (hp : PricedAlike prices d d') :
    Alike prices (windowRows since until_ d') (windowRows since until_ d) := by
  intro p
  refine ⟨?_, h.anyFiled hw p⟩
  have hnone : Ledger.weigh (fun k => if dayStart k.start ∈ days ∧ p (heading k) = true then
      charged prices k.atDay - charged prices k else 0) d.hourly = Ledger.weigh (fun _ => 0) d.hourly := by
    refine Ledger.weigh_congr fun k hk => ?_
    split
    · rename_i hday
      rw [hp k (h.mem_movedHours.2 ⟨hk, hday.1⟩), sub_self]
    · rfl
  rw [h.filed hw, hnone]
  simp [Ledger.weigh]

end Moved

/-! ## The same rows with other quantities -/

/-- A ledger of the same rows, with a quantity of one hour only. -/
def onlyHour (d : UsageD1) (k : BucketKey) (q : ℚ) : UsageD1 :=
  { d with
    hourly := d.hourly.map fun r => (r.1, if r.1 = k then q else 0)
    daily := d.daily.map fun r => (r.1, 0) }

theorem sameRows_onlyHour (d : UsageD1) (k : BucketKey) (q : ℚ) : SameRows d (onlyHour d k q) := by
  constructor
  · simp [onlyHour]
  · simp [onlyHour]

theorem weigh_onlyHour (w : BucketKey → ℚ) (d : UsageD1) (k : BucketKey) (q : ℚ) :
    Ledger.weigh w (onlyHour d k q).hourly = (d.hourly.map Prod.fst).count k * (w k * q) := by
  unfold onlyHour
  induction d.hourly with
  | nil => simp
  | cons r rest ih =>
    rw [List.map_cons, Ledger.weigh_cons, ih, List.map_cons, List.count_cons]
    by_cases hr : r.1 = k
    · simp only [hr, if_true, beq_self_eq_true, Nat.cast_add, Nat.cast_one]
      ring
    · simp [hr]

theorem SameRows.foldedDays {d e : UsageD1} (h : SameRows d e) (now keepDays : Int) (maxDays : Nat)
    (fates : List D1Fate) : foldedDays now keepDays maxDays fates e = foldedDays now keepDays maxDays fates d := by
  have hdays : ∀ (cutoff : Int) (f : UsageD1), (f.hourly.filter fun r => decide (r.1.start < cutoff)).map
      (fun r => dayOf r.1.start) = ((f.hourly.map Prod.fst).filter fun k => decide (k.start < cutoff)).map
        fun k => dayOf k.start := by
    intro cutoff f
    rw [List.filter_map, List.map_map]
    rfl
  simp only [Usage.foldedDays, oldDays, hdays, h.1]

theorem SameRows.mem_movedHours {d e d' e' : UsageD1} {days : List Int} (h : SameRows d e) (hd : Folded days d d')
    (he : Folded days e e') {k : BucketKey} : k ∈ movedHours e e' ↔ k ∈ movedHours d d' := by
  rw [hd.mem_movedHours, he.mem_movedHours, h.1]

/-- Some window holds the days of all hours. -/
theorem exists_window (l : List BucketKey) :
    ∃ n : Int, ∀ k ∈ l, -n ≤ dayStart k.start ∧ dayStart k.start + dayMs ≤ n := by
  induction l with
  | nil => exact ⟨0, by simp⟩
  | cons k l ih =>
    obtain ⟨n, hn⟩ := ih
    refine ⟨max n (max (-dayStart k.start) (dayStart k.start + dayMs)), fun k' hk' => ?_⟩
    rcases List.mem_cons.1 hk' with rfl | hk'
    · omega
    · have := hn k' hk'
      omega

/-- An hour priced otherwise than its day's start: with a quantity of it alone, the operator's cost is another. -/
theorem not_billsKept {prices : List UsagePrice} {provisioned : List ProvisionedAgent} {days : List Int}
    {d d' e' : UsageD1} {k : BucketKey} (hd : Folded days d d') (hk : k ∈ movedHours d d')
    (hne : charged prices k ≠ charged prices k.atDay)
    (he : Folded days (onlyHour d k |charged prices k.atDay - charged prices k|⁻¹) e') :
    ¬BillsKept prices provisioned (onlyHour d k |charged prices k.atDay - charged prices k|⁻¹) e' := by
  intro hkept
  have hmoved := (sameRows_onlyHour d k |charged prices k.atDay - charged prices k|⁻¹).mem_movedHours (k := k) hd he
  have hadds : ∀ w : BucketKey → ℚ, Ledger.weigh w (onlyHour d k |charged prices k.atDay - charged prices k|⁻¹).hourly =
      (d.hourly.map Prod.fst).count k * (w k * |charged prices k.atDay - charged prices k|⁻¹) :=
    fun w => weigh_onlyHour w d k _
  generalize onlyHour d k |charged prices k.atDay - charged prices k|⁻¹ = e at he hkept hmoved hadds
  obtain ⟨n, hn⟩ := exists_window (e.hourly.map Prod.fst)
  have hw : WholeDays (-n) n e e' := fun x hx => hn x (he.mem_movedHours.1 hx).1
  obtain ⟨hin, hday⟩ := he.mem_movedHours.1 (hmoved.2 hk)
  -- the cost the operator reads of the hour's resource on its day
  have hbills := congrArg (fun l => (findTenant l k.tenantId (dayStart k.start) k.resource).map (·.cost))
    (hkept (-n) n hw .day).1
  have hp : ofTenant provisioned k.tenantId false (headingIn .day (dayStart k.start) k.resource) (heading k) = true := by
    simp [ofTenant, headingIn, heading, periodStart, dayStart_dayStart]
  generalize hP : ofTenant provisioned k.tenantId false (headingIn .day (dayStart k.start) k.resource) = P at hp hbills
  have hany : anyFiled P (windowRows (-n) n e) := by
    obtain ⟨r, hr, rfl⟩ := List.mem_map.1 hin
    refine ⟨r, List.mem_filter.2 ⟨List.mem_append.2 (.inl hr), ?_⟩, hp⟩
    exact (inWindow_of_whole (hw r.1 (hmoved.2 hk))).1
  simp only [cost_bill, cost_readUsageCosts, hP] at hbills
  rw [if_pos hany, if_pos ((he.anyFiled hw P).2 hany), Option.some.injEq, he.filed hw, hadds,
    if_pos ⟨hday, hp⟩] at hbills
  -- which is a whole number more or less
  have hsub : charged prices k.atDay - charged prices k ≠ 0 := sub_ne_zero.2 (Ne.symm hne)
  have hcount : (d.hourly.map Prod.fst).count k ≠ 0 := by
    have hpos := List.count_pos_iff.2 (hd.mem_movedHours.1 hk).1
    omega
  rcases abs_choice (charged prices k.atDay - charged prices k) with habs | habs
  · rw [habs, mul_inv_cancel₀ hsub, mul_one, ← Int.cast_natCast, tidy_add_int] at hbills
    have hzero : (((d.hourly.map Prod.fst).count k : Int) : ℚ) = 0 := by linarith
    exact hcount (by exact_mod_cast hzero)
  · rw [habs, inv_neg, mul_neg, mul_inv_cancel₀ hsub, mul_neg, mul_one, ← Int.cast_natCast, ← Int.cast_neg,
      tidy_add_int] at hbills
    have hzero : (((d.hourly.map Prod.fst).count k : Int) : ℚ) = 0 := by
      rw [Int.cast_neg] at hbills
      linarith
    exact hcount (by exact_mod_cast hzero)

/-! ## Folding and bills -/

/-- The readings sum up, whatever the ledger and the prices. -/
theorem readings_sum (prices : List UsagePrice) (provisioned : List ProvisionedAgent) (since until_ : Int)
    (bucket : CostBucket) (d : UsageD1) :
    (∀ t ∈ readUsageCosts prices provisioned since until_ bucket d, t.costs.Sums ∧ ∀ c ∈ t.onboarding, c.Sums) ∧
      ∀ tenantId byAgent, (readTenantCosts prices provisioned tenantId since until_ bucket byAgent d).costs.Sums := by
  refine ⟨fun t ht => ?_, fun tenantId byAgent => sums_costsByPeriod ..⟩
  obtain ⟨tenantId, -, rfl⟩ := List.mem_map.1 ht
  refine ⟨sums_costsByPeriod .., fun c hc => ?_⟩
  dsimp only at hc
  split at hc
  · cases hc
  · cases hc
    exact sums_costsByPeriod ..

/-- A run of `foldUsage` keeps every bill, for whatever quantities, exactly where each hour it moves is priced at its
own start as at the start of its day. The costs of a reading sum up, the operator's and the tenant's reading agree on
what they share, and `foldCacheReadCost` keeps the sum of the costs, always. -/
theorem fold_keeps_bills (prices : List UsagePrice) (provisioned : List ProvisionedAgent) (d : UsageD1)
    (now keepDays : Int) (maxDays : Nat) (fates : List D1Fate) :
    ((∀ e, SameRows d e → BillsKept prices provisioned e (foldRun now keepDays maxDays fates e)) ↔
      PricedAlike prices d (foldRun now keepDays maxDays fates d)) ∧
    (∀ since until_ bucket,
      (∀ t ∈ readUsageCosts prices provisioned since until_ bucket d, t.costs.Sums ∧ ∀ c ∈ t.onboarding, c.Sums) ∧
        ∀ tenantId byAgent, (readTenantCosts prices provisioned tenantId since until_ bucket byAgent d).costs.Sums) ∧
    (∀ since until_ bucket tenantId start resource byAgent, resource ≠ unacceptedTokens →
      findTenant (readUsageCosts prices provisioned since until_ bucket d) tenantId start resource =
        (readTenantCosts prices provisioned tenantId since until_ bucket byAgent d).costs.find start resource) ∧
    ∀ rows, costSum (foldCacheReadCost prices rows) = costSum rows := by
  have hd := folded_foldRun now keepDays maxDays fates d
  have he : ∀ e, SameRows d e →
      Folded (foldedDays now keepDays maxDays fates d) e (foldRun now keepDays maxDays fates e) := by
    intro e hsame
    rw [← hsame.foldedDays]
    exact folded_foldRun now keepDays maxDays fates e
  refine ⟨⟨fun hkept k hk => ?_, fun hpriced e hsame since until_ hw bucket => ?_⟩, ?_, ?_, ?_⟩
  · by_contra hne
    have hsame := sameRows_onlyHour d k |charged prices k.atDay - charged prices k|⁻¹
    exact not_billsKept hd hk hne (he _ hsame) (hkept _ hsame)
  · have hpriced' : PricedAlike prices e (foldRun now keepDays maxDays fates e) := fun k hk =>
      hpriced k ((hsame.mem_movedHours hd (he e hsame)).1 hk)
    have halike := (he e hsame).alike hw hpriced'
    exact ⟨halike.readUsageCosts provisioned bucket,
      fun tenantId byAgent => halike.readTenantCosts provisioned tenantId bucket byAgent⟩
  · exact fun since until_ bucket => readings_sum prices provisioned since until_ bucket d
  · exact fun since until_ bucket tenantId start resource byAgent hshared =>
      views_agree prices provisioned tenantId since until_ bucket start resource d byAgent hshared
  · exact foldCacheReadCost_sum prices

/-- A price that takes effect at noon. -/
def noonPrices : List UsagePrice :=
  [⟨"js.run", js "*", "ms", 1, 0⟩, ⟨"js.run", js "*", "ms", 2, 43200000⟩]

/-- One hour of that day, at one in the afternoon. -/
def noonLedger : UsageD1 := ⟨[], [(⟨"t", "a", 46800000, "js.run", js "run", "ms"⟩, 1)], []⟩

/-- Folded, the hour costs its tenant what it would have before noon. -/
theorem noon_moves_bill :
    ¬BillsKept noonPrices [] noonLedger (foldRun (36 * dayMs) keepHourlyDays 31 [] noonLedger) := by
  intro h
  have hwhole : WholeDays 0 dayMs noonLedger (foldRun (36 * dayMs) keepHourlyDays 31 [] noonLedger) := by
    unfold WholeDays
    decide
  have hbills := (h 0 dayMs hwhole .day).1
  revert hbills
  decide +kernel

end Usage
end Antiproton
