import Antiproton.Lib.History
import Antiproton.Usage.Hours

/-!
# Antiproton.Usage.Active

How long an object was active, by the hour (`src/usage/active.ts`): the union of its busy spans, and the passes that
bill what is new of it.

* `unionMsByHour_at`, `unionMsByHour_sum`: the hours hold the union, each its own part.
* `pass_spec`: a pass takes each hour's bill to what it reads of the hour, where that is more.
* `billed_le`, `billed_attained`: after any sequence of passes an hour's bill is the most that one of them read of it.
* `active_time_iff`: the bill is the whole union exactly where one pass has read the whole of each busy hour.
-/

namespace Antiproton
namespace Usage

open Intervals Js

/-- `ActivitySpan`; a time or a length that is no finite number is `none`. -/
structure ActivitySpan where
  at_ : Option ℚ
  ms : Option ℚ
  kind : Str
deriving DecidableEq

def isBusyKind (kind : Str) : Bool := !(js "offload_").isPrefixOf kind

def busySpans (all : List ActivitySpan) : List ActivitySpan := all.filter fun s => isBusyKind s.kind

/-- The pair `merged` makes of a span, which it keeps when it is finite and not empty. -/
def ActivitySpan.interval (s : ActivitySpan) : Option HalfOpen :=
  match s.at_, s.ms with
  | some a, some ms => if a < a + max 0 ms then some (a, a + max 0 ms) else none
  | _, _ => none

def merged (spans : List ActivitySpan) : List HalfOpen := merge (spans.filterMap (·.interval))

def unionMs (spans : List ActivitySpan) : ℚ := (merged spans).foldl (fun a i => a + (i.2 - i.1)) 0

def unionMsByHour (spans : List ActivitySpan) : List (Int × ℚ) :=
  Table.orderBy Prod.fst (Ledger.post ((merged spans).flatMap fun i => msByHour i.1 i.2) [])

/-- What `newActiveMs` gives an hour: what to add, and what the hour comes to. -/
structure FreshHour where
  hour : Int
  ms : Int
  total : Int
deriving DecidableEq

def newActiveMs (byHour : List (Int × ℚ)) (counted : Int → Option ℚ) : List FreshHour :=
  byHour.filterMap fun r =>
    let had := (counted r.1).getD 0
    let add := mathRound r.2 - mathRound had
    if 0 < add then some ⟨r.1, add, mathRound r.2⟩ else none

/-- A row of `usage_active`. -/
structure ActiveRow where
  hour : Int
  ms : Int
deriving DecidableEq

/-- The tables a pass reads and writes: `do_activity`, `usage_active` and the outbox. -/
structure ActiveDb where
  activity : List ActivitySpan
  active : List ActiveRow
  outbox : Outbox
deriving DecidableEq

/-- `WHERE at + ms >= since`; no row whose sum is null meets it, and `merged` keeps none whose sum is infinite. -/
def endsSince (since : Int) (s : ActivitySpan) : Bool :=
  match s.at_, s.ms with
  | some a, some ms => decide ((since : ℚ) ≤ a + ms)
  | _, _ => false

/-- The spans a pass at `now` reads of those there are. -/
def readAt (now : ℚ) (spans : List ActivitySpan) : List ActivitySpan :=
  spans.filter (endsSince (hourStart now - hourMs))

/-- The row an hour is billed by. -/
def activeRow (who : Who) (hour ms : Int) : UsageRow :=
  ⟨hour, who.tenantId, who.agentId, "object.active", js "", some ms, "ms"⟩

/-- `INSERT INTO usage_active … ON CONFLICT(hour) DO UPDATE SET ms = excluded.ms`. -/
def storeActive (t : List ActiveRow) (f : FreshHour) : List ActiveRow :=
  Table.upsert (fun r => r.hour == f.hour) ⟨f.hour, f.total⟩ (fun r => { r with ms := f.total }) t

/-- The watermarks from `oldest` on, as a pass reads them. -/
def countedSince (oldest : Int) (t : List ActiveRow) (hour : Int) : Option ℚ :=
  (Table.one (fun r => r.hour == hour) (Table.select (fun r => decide (oldest ≤ r.hour)) t)).map fun r => (r.ms : ℚ)

def countActiveTime (who : Who) (now : ℚ) (db : ActiveDb) : List (Int × Int) × ActiveDb :=
  let byHour := unionMsByHour (busySpans (readAt now db.activity))
  match byHour with
  | [] => ([], db)
  | (oldest, _) :: _ =>
    let fresh := newActiveMs byHour (countedSince oldest db.active)
    if fresh.isEmpty then ([], db)
    else
      (fresh.map fun f => (f.hour, f.ms),
        { db with
          outbox := appendUsage (fresh.map fun f => activeRow who f.hour f.ms) db.outbox
          active := fresh.foldl storeActive db.active })

/-! ## What the spans cover -/

/-- The instants at which a busy span was under way. -/
def busyTime (spans : List ActivitySpan) : Set ℝ :=
  {x | ∃ s ∈ spans, isBusyKind s.kind = true ∧
    ∃ a ms : ℚ, s.at_ = some a ∧ s.ms = some ms ∧ (a : ℝ) ≤ x ∧ x < a + ms}

/-- How long of the hour that starts at `h` some busy span was under way. -/
noncomputable def busyIn (spans : List ActivitySpan) (h : Int) : ℝ := timeIn (busyTime spans) h (h + hourMs)

theorem interval_nonempty {s : ActivitySpan} {i : HalfOpen} (h : s.interval = some i) : i.1 < i.2 := by
  unfold ActivitySpan.interval at h
  split at h
  · split at h
    · rename_i hlt
      cases h
      exact hlt
    · cases h
  · cases h

theorem intervals_nonempty (spans : List ActivitySpan) : ∀ i ∈ spans.filterMap (·.interval), i.1 < i.2 := by
  intro i hi
  obtain ⟨s, -, hs⟩ := List.mem_filterMap.1 hi
  exact interval_nonempty hs

theorem separated_merged (spans : List ActivitySpan) : Separated (merged spans) :=
  separated_merge (intervals_nonempty spans)

theorem covered_merged (spans : List ActivitySpan) : covered (merged (busySpans spans)) = busyTime spans := by
  unfold merged
  rw [covered_merge (intervals_nonempty _)]
  ext x
  simp only [covered, busyTime, busySpans, Set.mem_ofPred_eq, List.mem_filterMap, List.mem_filter]
  constructor
  · rintro ⟨i, ⟨s, ⟨hs, hk⟩, hi⟩, hle, hlt⟩
    refine ⟨s, hs, hk, ?_⟩
    unfold ActivitySpan.interval at hi
    split at hi
    · rename_i a ms ha hms
      split at hi
      · rename_i hpos
        cases hi
        have hms0 : 0 < ms := by
          have hmax : 0 < max 0 ms := by linarith
          exact (lt_max_iff.1 hmax).resolve_left (lt_irrefl 0)
        refine ⟨a, ms, ha, hms, hle, ?_⟩
        rw [max_eq_right hms0.le] at hlt
        exact_mod_cast hlt
      · cases hi
    · cases hi
  · rintro ⟨s, hs, hk, a, ms, ha, hms, hle, hlt⟩
    have hms0 : (0 : ℝ) < ms := by linarith
    have hpos : 0 < ms := by exact_mod_cast hms0
    refine ⟨(a, a + ms), ⟨s, ⟨hs, hk⟩, ?_⟩, hle, by exact_mod_cast hlt⟩
    simp [ActivitySpan.interval, ha, hms, max_eq_right hpos.le, hpos]

/-! ## The union by the hour -/

theorem total_flatMap (p : Int → Bool) (l : List HalfOpen) :
    Ledger.total p (l.flatMap fun i => msByHour i.1 i.2) =
      (l.map fun i => Ledger.total p (msByHour i.1 i.2)).sum := by
  induction l with
  | nil => rfl
  | cons i l ih => rw [List.flatMap_cons, Ledger.total_append, ih, List.map_cons, List.sum_cons]

theorem total_unionMsByHour (p : Int → Bool) (spans : List ActivitySpan) :
    Ledger.total p (unionMsByHour spans) = ((merged spans).map fun i => Ledger.total p (msByHour i.1 i.2)).sum := by
  unfold unionMsByHour
  rw [Ledger.total_perm p (Table.orderBy_perm Prod.fst _), Ledger.total_post, Ledger.total_nil, zero_add, total_flatMap]

theorem nodup_unionMsByHour (spans : List ActivitySpan) : ((unionMsByHour spans).map Prod.fst).Nodup := by
  have hpost := Ledger.nodup_post ((merged spans).flatMap fun i => msByHour i.1 i.2)
    (l := ([] : Ledger Int ℚ)) List.nodup_nil
  exact ((Table.orderBy_perm Prod.fst _).map Prod.fst).nodup_iff.2 hpost

theorem foldl_lengths (l : List HalfOpen) (a : ℚ) :
    l.foldl (fun a i => a + (i.2 - i.1)) a = a + (l.map fun i => i.2 - i.1).sum := by
  induction l generalizing a with
  | nil => simp
  | cons i l ih => rw [List.foldl_cons, ih, List.map_cons, List.sum_cons, add_assoc]

/-- The hours add up to the union. -/
theorem unionMsByHour_sum (spans : List ActivitySpan) : ((unionMsByHour spans).map Prod.snd).sum = unionMs spans := by
  have htotal := total_unionMsByHour (fun _ => true) spans
  have hparts : ((merged spans).map fun i => Ledger.total (fun _ => true) (msByHour i.1 i.2)) =
      (merged spans).map fun i => i.2 - i.1 := by
    refine List.map_congr_left fun i hi => ?_
    exact msByHour_sum ((separated_merged spans).1 i hi)
  rw [hparts] at htotal
  rw [unionMs, foldl_lengths, zero_add, ← htotal]
  simp [Ledger.total]

/-- What an hour of the union holds is the time the spans cover in it. -/
theorem unionMsByHour_at (spans : List ActivitySpan) {h : Int} (hd : hourMs ∣ h) :
    ((Ledger.total (fun k => decide (k = h)) (unionMsByHour (busySpans spans)) : ℚ) : ℝ) = busyIn spans h := by
  have hparts : ((merged (busySpans spans)).map fun i =>
      Ledger.total (fun k => decide (k = h)) (msByHour i.1 i.2)) =
      (merged (busySpans spans)).map (overlap h (h + hourMs)) :=
    List.map_congr_left fun i _ => msByHour_at hd
  rw [total_unionMsByHour, hparts, ← measure_covered (separated_merged _), covered_merged]
  rfl

theorem hour_of_unionMsByHour {spans : List ActivitySpan} {r : Int × ℚ} (hr : r ∈ unionMsByHour spans) :
    hourMs ∣ r.1 := by
  have hpost : r ∈ Ledger.post ((merged spans).flatMap fun i => msByHour i.1 i.2) [] :=
    (Table.orderBy_perm Prod.fst _).mem_iff.1 hr
  rcases Ledger.mem_keys_post (List.mem_map_of_mem hpost) with h | h
  · cases h
  · obtain ⟨r', hr', heq⟩ := List.mem_map.1 h
    obtain ⟨i, -, hi⟩ := List.mem_flatMap.1 hr'
    rw [← heq]
    exact hour_of_msByHour (List.mem_map_of_mem hi)

/-! ## One pass -/

/-- The watermark of an hour. -/
def markOf (h : Int) (t : List ActiveRow) : Int := ((Table.one (fun r => r.hour == h) t).map (·.ms)).getD 0

/-- The key of the ledger an hour of an object is billed under. -/
def activeKey (who : Who) (h : Int) : BucketKey := ⟨who.tenantId, who.agentId, h, "object.active", js "", "ms"⟩

/-- What an object has been billed for an hour. -/
def billedActive (who : Who) (h : Int) (db : ActiveDb) : ℚ := db.outbox.amount fun k => decide (k = activeKey who h)

theorem markOf_store (h : Int) (t : List ActiveRow) (f : FreshHour) :
    markOf h (storeActive t f) = if f.hour = h then f.total else markOf h t := by
  let key := fun r : ActiveRow => r.hour
  let merge := fun r : ActiveRow => { r with ms := f.total }
  have hone := Table.one_upsert key merge (fun _ => rfl) ⟨f.hour, f.total⟩ h t
  unfold markOf storeActive
  rw [hone]
  split
  · cases Table.one (fun r => key r == h) t with
    | none => rfl
    | some r => rfl
  · rfl

theorem find_absent {h : Int} {fresh : List FreshHour} (hh : h ∉ fresh.map (·.hour)) :
    (fresh.find? fun f => f.hour == h) = none := by
  refine List.find?_eq_none.2 fun f hf heq => hh ?_
  rw [← beq_iff_eq.1 heq]
  exact List.mem_map_of_mem hf

theorem find_cons (h : Int) (f : FreshHour) (fresh : List FreshHour) :
    ((f :: fresh).find? fun f => f.hour == h) =
      if f.hour = h then some f else fresh.find? fun f => f.hour == h := by
  rw [List.find?_cons]
  split
  · rename_i heq
    rw [if_pos (beq_iff_eq.1 heq)]
  · rename_i heq
    rw [if_neg (by simpa using heq)]

theorem markOf_storeAll (h : Int) {fresh : List FreshHour} (hn : (fresh.map (·.hour)).Nodup) (t : List ActiveRow) :
    markOf h (fresh.foldl storeActive t) =
      ((fresh.find? fun f => f.hour == h).map (·.total)).getD (markOf h t) := by
  induction fresh generalizing t with
  | nil => rfl
  | cons f fresh ih =>
    rw [List.map_cons, List.nodup_cons] at hn
    rw [List.foldl_cons, ih hn.2, markOf_store, find_cons]
    by_cases hh : f.hour = h
    · have hnone := find_absent (hh ▸ hn.1)
      simp [hh, hnone]
    · simp [hh]

theorem sum_active (who : Who) {h : Int} {fresh : List FreshHour} (hn : (fresh.map (·.hour)).Nodup)
    (hd : ∀ f ∈ fresh, hourMs ∣ f.hour) :
    ((fresh.map fun f => activeRow who f.hour f.ms).map fun r =>
      if decide (r.bucket = activeKey who h) then r.quantity.getD 0 else 0).sum =
      (((fresh.find? fun f => f.hour == h).map (·.ms)).getD 0 : Int) := by
  induction fresh with
  | nil => simp
  | cons f fresh ih =>
    rw [List.map_cons, List.nodup_cons] at hn
    have hrest := ih hn.2 fun g hg => hd g (by simp [hg])
    have hbucket : (activeRow who f.hour f.ms).bucket = activeKey who f.hour := by
      simp [activeRow, UsageRow.bucket, activeKey, hourOf_hour (hd f (by simp)), js]
    have hkey : (activeKey who f.hour = activeKey who h) ↔ f.hour = h := by simp [activeKey]
    rw [List.map_cons, List.map_cons, List.sum_cons, hrest, hbucket, find_cons]
    by_cases hh : f.hour = h
    · have hnone := find_absent (hh ▸ hn.1)
      simp [hh, hnone, activeRow]
    · simp [hh, hkey]

section Fresh

variable {byHour : List (Int × ℚ)} (hn : (byHour.map Prod.fst).Nodup) {counted : Int → Option ℚ}
include hn

theorem nodup_newActiveMs : ((newActiveMs byHour counted).map (·.hour)).Nodup := by
  have hsub : ((newActiveMs byHour counted).map (·.hour)).Sublist (byHour.map Prod.fst) := by
    unfold newActiveMs
    clear hn
    induction byHour with
    | nil => exact .slnil
    | cons r rest ih =>
      rw [List.filterMap_cons]
      dsimp only
      by_cases hadd : 0 < mathRound r.2 - mathRound ((counted r.1).getD 0)
      · rw [if_pos hadd]
        exact ih.cons_cons r.1
      · rw [if_neg hadd]
        exact ih.cons r.1
  exact hsub.nodup hn

/-- The fresh hour there is for `h`, if any: the hour's total, where it has grown past what was counted. -/
theorem find_newActiveMs {h m : Int} (hm : 0 ≤ m)
    (hcounted : h ∈ byHour.map Prod.fst → (counted h).getD 0 = (m : ℚ)) :
    (newActiveMs byHour counted).find? (fun f => f.hour == h) =
      let u := mathRound (Ledger.total (fun k => decide (k = h)) byHour)
      if 0 < u - m then some ⟨h, u - m, u⟩ else none := by
  unfold newActiveMs
  dsimp only
  induction byHour with
  | nil =>
    have hzero : mathRound (0 : ℚ) = 0 := mathRound_int 0
    rw [Ledger.total_nil, hzero, if_neg (by omega)]
    rfl
  | cons r rest ih =>
    rw [List.map_cons, List.nodup_cons] at hn
    rw [List.filterMap_cons, Ledger.total_cons]
    by_cases hh : r.1 = h
    · subst hh
      have htail := ih hn.2 fun hmem => absurd hmem hn.1
      rw [Ledger.total_absent hn.1, add_zero, if_pos (decide_eq_true rfl), hcounted (by simp), mathRound_int]
      rw [Ledger.total_absent hn.1, show mathRound (0 : ℚ) = 0 from mathRound_int 0, if_neg (by omega)] at htail
      by_cases hadd : 0 < mathRound r.2 - m
      · simp only [if_pos hadd]
        rw [find_cons, if_pos rfl]
      · simp only [if_neg hadd]
        exact htail
    · have htail := ih hn.2 fun hmem => hcounted (by simp [hmem])
      have hother : (if decide (r.1 = h) = true then r.2 else 0) = 0 := if_neg (by simpa using hh)
      rw [hother, zero_add, ← htail]
      by_cases hadd : 0 < mathRound r.2 - mathRound ((counted r.1).getD 0)
      · simp only [if_pos hadd]
        rw [find_cons, if_neg hh]
      · simp only [if_neg hadd]

end Fresh

theorem countedSince_eq {oldest h : Int} (hle : oldest ≤ h) (t : List ActiveRow) :
    (countedSince oldest t h).getD 0 = (markOf h t : ℚ) := by
  have hone : Table.one (fun r => r.hour == h) (Table.select (fun r => decide (oldest ≤ r.hour)) t) =
      Table.one (fun r => r.hour == h) t := by
    unfold Table.one Table.select
    rw [List.find?_filter]
    refine Table.one_congr fun r _ => ?_
    by_cases hr : r.hour = h
    · simp [hr, hle]
    · simp [hr]
  unfold countedSince markOf
  rw [hone]
  cases Table.one (fun r => r.hour == h) t with
  | none => simp
  | some r => simp

/-- A pass takes each hour to what it reads of it, where that is more, and bills the difference. -/
theorem pass_spec (who : Who) (now : ℚ) (db : ActiveDb) {h : Int} (hd : hourMs ∣ h) (hm : 0 ≤ markOf h db.active) :
    let db' := (countActiveTime who now db).2
    markOf h db'.active = max (markOf h db.active) (mathRound (busyIn (readAt now db.activity) h)) ∧
    billedActive who h db' = billedActive who h db + (markOf h db'.active - markOf h db.active : Int) ∧
    db'.activity = db.activity := by
  have hat := unionMsByHour_at (readAt now db.activity) hd
  have hn := nodup_unionMsByHour (busySpans (readAt now db.activity))
  have hhours : ∀ r ∈ unionMsByHour (busySpans (readAt now db.activity)), hourMs ∣ r.1 :=
    fun r hr => hour_of_unionMsByHour hr
  have hsorted : (unionMsByHour (busySpans (readAt now db.activity))).Pairwise fun r r' => r.1 ≤ r'.1 :=
    Table.pairwise_orderBy Prod.fst _
  rw [← hat, mathRound_cast]
  unfold countActiveTime
  dsimp only
  generalize unionMsByHour (busySpans (readAt now db.activity)) = byHour at hn hhours hsorted ⊢
  cases byHour with
  | nil =>
    rw [Ledger.total_nil, show mathRound (0 : ℚ) = 0 from mathRound_int 0]
    exact ⟨(max_eq_left hm).symm, by simp, rfl⟩
  | cons r rest =>
    obtain ⟨oldest, first⟩ := r
    dsimp only
    have holdest : ∀ k ∈ ((oldest, first) :: rest).map Prod.fst, oldest ≤ k := by
      intro k hk
      obtain ⟨r, hr, rfl⟩ := List.mem_map.1 hk
      rcases List.mem_cons.1 hr with rfl | hr
      · exact le_rfl
      · exact (List.pairwise_cons.1 hsorted).1 r hr
    have hfind := find_newActiveMs hn hm
      fun hmem => countedSince_eq (holdest h hmem) db.active
    have hnodup : ((newActiveMs ((oldest, first) :: rest) (countedSince oldest db.active)).map (·.hour)).Nodup :=
      nodup_newActiveMs hn
    have hdiv : ∀ f ∈ newActiveMs ((oldest, first) :: rest) (countedSince oldest db.active), hourMs ∣ f.hour := by
      intro f hf
      obtain ⟨r, hr, hrf⟩ := List.mem_filterMap.1 hf
      dsimp only at hrf
      split at hrf
      · cases hrf
        exact hhours r hr
      · cases hrf
    generalize hu : mathRound (Ledger.total (fun k => decide (k = h)) ((oldest, first) :: rest)) = u at hfind ⊢
    generalize newActiveMs ((oldest, first) :: rest) (countedSince oldest db.active) = fresh at hfind hnodup hdiv ⊢
    dsimp only at hfind
    have hmark : markOf h (fresh.foldl storeActive db.active) = max (markOf h db.active) u := by
      rw [markOf_storeAll h hnodup, hfind]
      split
      · simp only [Option.map_some, Option.getD_some]
        omega
      · simp only [Option.map_none, Option.getD_none]
        omega
    have hbill : billedActive who h { db with
          outbox := appendUsage (fresh.map fun f => activeRow who f.hour f.ms) db.outbox
          active := fresh.foldl storeActive db.active } =
        billedActive who h db + (max (markOf h db.active) u - markOf h db.active : Int) := by
      unfold billedActive
      rw [amount_appendUsage, sum_active who hnodup hdiv, hfind]
      congr 2
      split
      · simp only [Option.map_some, Option.getD_some]
        omega
      · simp only [Option.map_none, Option.getD_none]
        omega
    split
    · rename_i hempty
      rw [List.isEmpty_iff] at hempty
      subst hempty
      have hkeep : markOf h db.active = max (markOf h db.active) u := hmark
      refine ⟨hkeep, ?_, rfl⟩
      simp
    · exact ⟨hmark, by rw [hbill, ← hmark], rfl⟩

/-! ## Any sequence of passes -/

/-- What happens to an object's active time: a busy span is recorded when it ends, or a pass counts. -/
inductive ActivityOp where
  | record (s : ActivitySpan)
  | pass (now : ℚ)
deriving DecidableEq

def activityExec (who : Who) : ActivityOp → ActiveDb → List (Int × Int) × ActiveDb
  | .record s, db => ([], { db with activity := db.activity ++ [s] })
  | .pass now, db => countActiveTime who now db

/-- The tables after a sequence of them, from none. -/
def activityAfter (who : Who) (ops : List ActivityOp) : ActiveDb :=
  History.final (activityExec who) ops ⟨[], [], ⟨[], 1⟩⟩

def ActivityOp.span : ActivityOp → Option ActivitySpan
  | .record s => some s
  | .pass _ => none

/-- The spans recorded in a sequence. -/
def recorded (ops : List ActivityOp) : List ActivitySpan := ops.filterMap (·.span)

/-- Some pass reads spans that come, in an hour, to `n` milliseconds. -/
def Reads (ops : List ActivityOp) (h n : Int) : Prop :=
  ∃ before now after, ops = before ++ .pass now :: after ∧ n = mathRound (busyIn (readAt now (recorded before)) h)

/-- Some pass reads spans that cover as much of an hour, to the millisecond, as all the spans ever recorded. -/
def ReadWhole (ops : List ActivityOp) (h : Int) : Prop := Reads ops h (mathRound (busyIn (recorded ops) h))

theorem busyIn_nonneg (spans : List ActivitySpan) (h : Int) : 0 ≤ busyIn spans h := MeasureTheory.measureReal_nonneg

theorem busyIn_mono {l l' : List ActivitySpan} (hs : ∀ s ∈ l, s ∈ l') (h : Int) : busyIn l h ≤ busyIn l' h := by
  refine timeIn_mono ?_ _ _
  intro x ⟨s, hmem, hx⟩
  exact ⟨s, hs s hmem, hx⟩

theorem activityAfter_snoc (who : Who) (ops : List ActivityOp) (op : ActivityOp) :
    activityAfter who (ops ++ [op]) = (activityExec who op (activityAfter who ops)).2 := History.final_append ..

theorem activity_recorded (who : Who) (ops : List ActivityOp) : (activityAfter who ops).activity = recorded ops := by
  induction ops using List.reverseRecOn with
  | nil => rfl
  | append_singleton ops op ih =>
    rw [activityAfter_snoc, recorded, List.filterMap_append, ← recorded, ← ih]
    cases op with
    | record s => rfl
    | pass now =>
      simp only [activityExec, List.filterMap_cons, ActivityOp.span, List.filterMap_nil, List.append_nil]
      unfold countActiveTime
      dsimp only
      split
      · rfl
      · split
        · rfl
        · rfl

theorem reads_snoc {ops : List ActivityOp} {op : ActivityOp} {h n : Int} :
    Reads (ops ++ [op]) h n ↔
      Reads ops h n ∨ ∃ now, op = .pass now ∧ n = mathRound (busyIn (readAt now (recorded ops)) h) := by
  constructor
  · rintro ⟨before, now, after, hsplit, hn⟩
    rcases List.eq_nil_or_concat after with rfl | ⟨init, last, rfl⟩
    · obtain ⟨rfl, hop⟩ := List.append_inj' hsplit rfl
      cases hop
      exact .inr ⟨now, rfl, hn⟩
    · rw [List.concat_eq_append, ← List.cons_append, ← List.append_assoc] at hsplit
      exact .inl ⟨before, now, init, (List.append_inj' hsplit rfl).1, hn⟩
  · rintro (⟨before, now, after, rfl, hn⟩ | ⟨now, rfl, hn⟩)
    · exact ⟨before, now, after ++ [op], by simp, hn⟩
    · exact ⟨ops, now, [], rfl, hn⟩

/-- An hour's watermark and bill are the most that a pass has read of the hour. -/
structure Tallied (who : Who) (ops : List ActivityOp) (h : Int) : Prop where
  billed : billedActive who h (activityAfter who ops) = markOf h (activityAfter who ops).active
  bound : ∀ n, Reads ops h n → n ≤ markOf h (activityAfter who ops).active
  attained : markOf h (activityAfter who ops).active = 0 ∨ Reads ops h (markOf h (activityAfter who ops).active)
  nonneg : 0 ≤ markOf h (activityAfter who ops).active

theorem tallied (who : Who) (ops : List ActivityOp) {h : Int} (hd : hourMs ∣ h) : Tallied who ops h := by
  induction ops using List.reverseRecOn with
  | nil =>
    have hnone : ∀ n, ¬Reads [] h n := by
      rintro n ⟨before, now, after, hsplit, -⟩
      simp at hsplit
    have hzero : markOf h (activityAfter who []).active = 0 := rfl
    exact ⟨rfl, fun n hn => absurd hn (hnone n), .inl hzero, hzero.ge⟩
  | append_singleton ops op ih =>
    cases op with
    | record s =>
      have hsame : ∀ n, Reads (ops ++ [.record s]) h n ↔ Reads ops h n := by
        intro n
        rw [reads_snoc]
        simp
      refine ⟨?_, ?_, ?_, ?_⟩
      · rw [activityAfter_snoc]
        exact ih.billed
      · intro n hn
        rw [activityAfter_snoc]
        exact ih.bound n ((hsame n).1 hn)
      · rw [activityAfter_snoc, hsame]
        exact ih.attained
      · rw [activityAfter_snoc]
        exact ih.nonneg
    | pass now =>
      obtain ⟨hmark, hbill, -⟩ := pass_spec who now (activityAfter who ops) hd ih.nonneg
      rw [activity_recorded] at hmark
      have hnow : Reads (ops ++ [.pass now]) h (mathRound (busyIn (readAt now (recorded ops)) h)) :=
        reads_snoc.2 (.inr ⟨now, rfl, rfl⟩)
      have hafter : activityAfter who (ops ++ [.pass now]) = (countActiveTime who now (activityAfter who ops)).2 :=
        activityAfter_snoc ..
      refine ⟨?_, ?_, ?_, ?_⟩
      · rw [hafter, hbill, ih.billed]
        push_cast
        ring
      · intro n hn
        rw [hafter, hmark]
        rcases reads_snoc.1 hn with hold | ⟨now', heq, rfl⟩
        · exact (ih.bound n hold).trans (le_max_left _ _)
        · cases heq
          exact le_max_right _ _
      · rw [hafter, hmark]
        rcases max_cases (markOf h (activityAfter who ops).active)
          (mathRound (busyIn (readAt now (recorded ops)) h)) with ⟨hmax, -⟩ | ⟨hmax, -⟩
        · rw [hmax]
          exact ih.attained.imp_right fun hold => reads_snoc.2 (.inl hold)
        · rw [hmax]
          exact .inr hnow
      · rw [hafter, hmark]
        exact ih.nonneg.trans (le_max_left _ _)

/-- No pass reads more of an hour than was recorded. -/
theorem reads_le {ops : List ActivityOp} {h n : Int} (hr : Reads ops h n) :
    n ≤ mathRound (busyIn (recorded ops) h) := by
  obtain ⟨before, now, after, rfl, rfl⟩ := hr
  refine mathRound_mono (busyIn_mono ?_ h)
  intro s hs
  rw [recorded, List.filterMap_append]
  exact List.mem_append_left _ (List.mem_filter.1 hs).1

/-- An hour is billed the union of its busy spans exactly where one pass has read the whole of what there is of it; and
the hours of a union add up to it. -/
theorem active_time_iff (who : Who) (ops : List ActivityOp) :
    ((∀ h, hourMs ∣ h → billedActive who h (activityAfter who ops) = mathRound (busyIn (recorded ops) h)) ↔
      ∀ h, hourMs ∣ h → 0 < mathRound (busyIn (recorded ops) h) → ReadWhole ops h) ∧
    ∀ spans, ((unionMsByHour spans).map Prod.snd).sum = unionMs spans := by
  refine ⟨forall_congr' fun h => ?_, unionMsByHour_sum⟩
  refine forall_congr' fun hd => ?_
  have ht := tallied who ops hd
  rw [ht.billed, Int.cast_inj]
  constructor
  · intro hall hpos
    rw [← hall] at hpos
    rcases ht.attained with hzero | hread
    · omega
    · rw [ReadWhole, ← hall]
      exact hread
  · intro hwhole
    have hnonneg := mathRound_nonneg (busyIn_nonneg (recorded ops) h)
    rcases hnonneg.lt_or_eq with hpos | hzero
    · refine le_antisymm ?_ (ht.bound _ (hwhole hpos))
      rcases ht.attained with hmark | hread
      · omega
      · exact reads_le hread
    · rcases ht.attained with hmark | hread
      · omega
      · have hle := reads_le hread
        have hmark := ht.nonneg
        omega

/-- Each span is recorded when it ends, before a pass less than an hour later; passes are at increasing times. -/
def timely : List ActivityOp → Bool
  | [] => true
  | .record s :: rest =>
    (match s.at_, s.ms with
      | some a, some ms => rest.any fun op =>
        match op with
        | .pass now => decide (a + ms ≤ now) && decide (now < a + ms + hourMs)
        | .record _ => false
      | _, _ => false) && timely rest
  | .pass now :: rest =>
    (rest.all fun op =>
      match op with
      | .pass later => decide (now < later)
      | .record s => ((s.at_.bind fun a => s.ms.map (a + ·)).elim false fun e => decide (now ≤ e))) && timely rest

/-- Half an hour, counted; then a span that reaches back into its last ten minutes and on for two hours more. -/
def reachingBack : List ActivityOp :=
  [.record ⟨some 0, some 1800000, js "alarm"⟩, .pass 1860000, .record ⟨some 1200000, some 10200000, js "alarm"⟩,
    .pass 11460000]

/-- The half hour the second span does not cover is never added to what it does. -/
theorem reaching_back_lost :
    timely reachingBack = true ∧
    billedActive ⟨"t", "a"⟩ 0 (activityAfter ⟨"t", "a"⟩ reachingBack) = 2400000 ∧
    mathRound (busyIn (recorded reachingBack) 0) = 3600000 ∧
    ¬∀ h, hourMs ∣ h →
      billedActive ⟨"t", "a"⟩ h (activityAfter ⟨"t", "a"⟩ reachingBack) =
        mathRound (busyIn (recorded reachingBack) h) := by
  have hbilled : billedActive ⟨"t", "a"⟩ 0 (activityAfter ⟨"t", "a"⟩ reachingBack) = 2400000 := by decide +kernel
  have hunion : Ledger.total (fun k => decide (k = 0)) (unionMsByHour (busySpans (recorded reachingBack))) =
      3600000 := by decide +kernel
  have hbusy : mathRound (busyIn (recorded reachingBack) 0) = 3600000 := by
    rw [← unionMsByHour_at _ (dvd_zero _), hunion]
    norm_num [mathRound]
  refine ⟨by decide +kernel, hbilled, hbusy, fun hall => ?_⟩
  have hzero := hall 0 (dvd_zero _)
  rw [hbilled, hbusy] at hzero
  norm_num at hzero

end Usage
end Antiproton
