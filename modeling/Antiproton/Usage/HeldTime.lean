import Antiproton.Usage.Sessions

/-!
# Antiproton.Usage.HeldTime

Any sequence of passes of `countHeldTime` over boxes that really had sessions. `Truthful` says the reports tell of those
sessions, and `Orderly` what the one watermark a box has relies on: whole milliseconds, a box in one mount, a session
that is not told of before the earlier ones are closed, one told of as running while it runs, and a box that is not
silent for over a week between.

* `seenTo`, `seenAt`: how far each session has been seen, from the reports alone.
* `pass_marked`: one pass keeps each box's watermark true, and bills what it has newly seen of the box.
* `held_time_once`: each box is billed the time and the uses its sessions were seen for, and nothing twice.
-/

namespace Antiproton
namespace Usage

/-! ## Passes, and what they show -/

/-- One pass: its clock, and what the mounts report to it. -/
structure HeldPass where
  now : ℚ
  reports : List NamedReport
deriving DecidableEq

def MountReport.showsEnded (s : Session) (r : MountReport) : Bool := r.usage.any fun v => v.held.session == s.key

def MountReport.showsLive (s : Session) (r : MountReport) : Bool := r.alive.any fun v => v.held.session == s.key

def MountReport.mentions (id : String) (r : MountReport) : Bool := r.listed.any fun b => b.id == id

def HeldPass.showsEnded (s : Session) (p : HeldPass) : Bool := p.reports.any fun n => n.report.showsEnded s

def HeldPass.showsLive (s : Session) (p : HeldPass) : Bool := p.reports.any fun n => n.report.showsLive s

def HeldPass.mentions (id : String) (p : HeldPass) : Bool := p.reports.any fun n => n.report.mentions id

/-- How far passes have seen a session: to its end, once one is told of that, and to the last that saw it running. -/
def seenTo (P : List HeldPass) (s : Session) : ℚ :=
  if P.any (·.showsEnded s) then s.stop.getD s.start
  else (P.filter (·.showsLive s)).foldl (fun t p => max t p.now) s.start

/-- How far passes have seen each session, and how many of its uses: those are told with its end. -/
def seenAt (P : List HeldPass) : Seen := fun s => (seenTo P s, if P.any (·.showsEnded s) then (s.uses : Int) else 0)

def heldExec (who : Who) (p : HeldPass) (db : HeldDb) : List (Str × Nat) × HeldDb :=
  countHeldTime who p.reports p.now db

/-- The tables before the first pass. -/
def noneHeld : HeldDb := ⟨[], ⟨[], 1⟩⟩

def heldAfter (who : Who) (P : List HeldPass) : HeldDb := History.final (heldExec who) P noneHeld

/-- What a pass counts of the sessions reported to it, under the reports. -/
def passEntries (db : HeldDb) (p : HeldPass) : List (NamedReport × HeldEntry) :=
  p.reports.flatMap fun n => (heldRows (boxesOf n.report) (heldCounted db.held) p.now).1.map fun e => (n, e)

def heldEntries (who : Who) (P : List HeldPass) : List (NamedReport × HeldEntry) :=
  (History.turns (heldExec who) P noneHeld).flatMap fun t => passEntries t.before t.act

/-- What rows are worth under the keys that meet `p`. -/
def worth (p : BucketKey → Bool) (rows : List UsageRow) : ℚ :=
  (rows.map fun r => if p r.bucket then r.quantity.getD 0 else 0).sum

/-- What passes have billed for the boxes that meet `q`, under the keys that meet `p`. -/
def heldBilled (who : Who) (p : BucketKey → Bool) (q : String → Bool) (P : List HeldPass) : ℚ :=
  (((heldEntries who P).filter fun e => q e.2.box.id).map fun e => worth p (e.2.rows who e.1.keyOf)).sum

/-- Container seconds of an object in an hour, under whichever account. -/
def secondsIn (who : Who) (h : Int) (k : BucketKey) : Bool :=
  k.tenantId == who.tenantId && k.agentId == who.agentId && k.resource == "sandbox.container" && k.start == h &&
    k.unit == "seconds"

/-- Container commands of an object, in any hour. -/
def execsOf (who : Who) (k : BucketKey) : Bool :=
  k.tenantId == who.tenantId && k.agentId == who.agentId && k.resource == "sandbox.container" && k.unit == "execs"

/-- Each box is billed, hour by hour, the time its sessions have been seen for, and the uses of those whose end was
told. -/
def BilledOnce (who : Who) (B : Boxes) (P : List HeldPass) : Prop :=
  (∀ id h, hourMs ∣ h → heldBilled who (secondsIn who h) (· == id) P =
    ((B.ofBox id).map fun s => inHour h (s.start, seenTo P s)).sum / 1000) ∧
  ∀ id, heldBilled who (execsOf who) (· == id) P =
    (((B.ofBox id).map fun s => if P.any (·.showsEnded s) then (s.uses : Int) else 0).sum : Int)

/-! ## What the reports are relied on for -/

/-- The reports tell of sessions there are. -/
structure Truthful (B : Boxes) (P : List HeldPass) : Prop where
  ended : ∀ p ∈ P, ∀ n ∈ p.reports, ∀ v ∈ n.report.usage,
    ∃ s ∈ B.sessions, v.held.session = s.key ∧ s.stop = some v.endedAt ∧ heldUses v.uses = s.uses
  live : ∀ p ∈ P, ∀ n ∈ p.reports, ∀ v ∈ n.report.alive, ∃ s ∈ B.sessions, v.held.session = s.key

def Whole (q : ℚ) : Prop := (⌊q⌋ : ℚ) = q

instance (q : ℚ) : Decidable (Whole q) := inferInstanceAs (Decidable (_ = _))

/-- What a single watermark for each box relies on. -/
structure Orderly (B : Boxes) (P : List HeldPass) : Prop where
  whole_sessions : ∀ s ∈ B.sessions, Whole s.start ∧ ∀ e ∈ s.stop, Whole e
  whole_passes : ∀ p ∈ P, Whole p.now
  running : ∀ p ∈ P, ∀ n ∈ p.reports, ∀ s ∈ B.sessions, n.report.showsLive s = true →
    n.report.showsEnded s = true ∨ ∀ e ∈ s.stop, p.now ≤ e
  one_mount : ∀ p ∈ P, p.reports.Pairwise fun n n' =>
    ∀ b ∈ n.report.listed, ∀ b' ∈ n'.report.listed, b.id ≠ b'.id
  in_order : ∀ x ∈ History.splits P, ∀ n ∈ x.2.1.reports, ∀ s ∈ B.sessions,
    (n.report.showsLive s || n.report.showsEnded s) = true →
    ∀ t ∈ B.sessions, t.box = s.box → t.endsBy s.start = true →
      x.1.any (·.showsEnded t) = true ∨ n.report.showsEnded t = true
  kept : ∀ x ∈ History.splits P, ∀ t ∈ B.sessions, t.start < seenTo x.1 t → x.2.1.mentions t.box = false →
    x.2.2.any (·.mentions t.box) = true →
    ∃ s ∈ B.sessions, s.box = t.box ∧ s.start < seenTo x.1 s ∧ x.2.1.now - keepMarksMs ≤ seenTo x.1 s

section Prefix

variable {B : Boxes} {P : List HeldPass} {p : HeldPass}

theorem Truthful.init (h : Truthful B (P ++ [p])) : Truthful B P :=
  ⟨fun q hq => h.ended q (List.mem_append_left _ hq), fun q hq => h.live q (List.mem_append_left _ hq)⟩

theorem splits_init {before after : List HeldPass} {q : HeldPass} (h : (before, q, after) ∈ History.splits P) :
    (before, q, after ++ [p]) ∈ History.splits (P ++ [p]) := by
  rw [History.mem_splits] at h ⊢
  rw [h, List.append_assoc, List.cons_append]

theorem Orderly.init (h : Orderly B (P ++ [p])) : Orderly B P where
  whole_sessions := h.whole_sessions
  whole_passes q hq := h.whole_passes q (List.mem_append_left _ hq)
  running q hq := h.running q (List.mem_append_left _ hq)
  one_mount q hq := h.one_mount q (List.mem_append_left _ hq)
  in_order x hx := h.in_order (x.1, x.2.1, x.2.2 ++ [p]) (splits_init hx)
  kept x hx t ht hseen hno hlater :=
    h.kept (x.1, x.2.1, x.2.2 ++ [p]) (splits_init hx) t ht hseen hno (by
      rw [List.any_append, hlater, Bool.true_or])

theorem last_split (P : List HeldPass) (p : HeldPass) : (P, p, []) ∈ History.splits (P ++ [p]) :=
  History.mem_splits.2 rfl

end Prefix

/-! ## How far a session is seen -/

section Seen

variable {B : Boxes} {P : List HeldPass} {p : HeldPass} {s : Session}

theorem le_foldl_now (l : List HeldPass) (t : ℚ) : t ≤ l.foldl (fun t p => max t p.now) t := by
  induction l generalizing t with
  | nil => exact le_rfl
  | cons p l ih => exact (le_max_left _ _).trans (ih _)

/-- What the start and the clock of every pass that sees a session running have in common, so has how far it is seen. -/
theorem foldl_now {Q : ℚ → Prop} {l : List HeldPass} {t : ℚ} (ht : Q t) (hl : ∀ p ∈ l, Q p.now) :
    Q (l.foldl (fun t p => max t p.now) t) := by
  induction l generalizing t with
  | nil => exact ht
  | cons p l ih =>
    have hmax : Q (max t p.now) := by
      rcases max_choice t p.now with h | h
      · rw [h]
        exact ht
      · rw [h]
        exact hl p (by simp)
    exact ih hmax fun q hq => hl q (by simp [hq])

theorem seenAt_ended (h : P.any (·.showsEnded s) = true) : seenAt P s = (s.stop.getD s.start, (s.uses : Int)) := by
  rw [seenAt, seenTo, if_pos h, if_pos h]

theorem seenAt_running (h : ¬P.any (·.showsEnded s) = true) :
    seenAt P s = ((P.filter (·.showsLive s)).foldl (fun t p => max t p.now) s.start, 0) := by
  rw [seenAt, seenTo, if_neg h, if_neg h]

theorem stop_of_shown (ht : Truthful B P) (hs : s ∈ B.sessions) (h : P.any (·.showsEnded s) = true) :
    ∃ e, s.stop = some e := by
  obtain ⟨q, hq, hshows⟩ := List.any_eq_true.1 h
  obtain ⟨n, hn, hshows⟩ := List.any_eq_true.1 hshows
  obtain ⟨v, hv, hkey⟩ := List.any_eq_true.1 hshows
  obtain ⟨t, htB, hvt, hstop, -⟩ := ht.ended q hq n hn v hv
  have heq : s = t := eq_of_key hs htB ((beq_iff_eq.1 hkey).symm.trans hvt)
  exact ⟨v.endedAt, heq ▸ hstop⟩

/-- A pass that sees a session running, of whose end no pass has told, is not past that end. -/
theorem now_le_of_live (ho : Orderly B P) (hs : s ∈ B.sessions) (hno : ¬P.any (·.showsEnded s) = true) {q : HeldPass}
    (hq : q ∈ P) (hlive : q.showsLive s = true) : ∀ e, s.stop = some e → q.now ≤ e := by
  obtain ⟨n, hn, hshows⟩ := List.any_eq_true.1 hlive
  rcases ho.running q hq n hn s hs hshows with hended | hopen
  · exact absurd (List.any_eq_true.2 ⟨q, hq, List.any_eq_true.2 ⟨n, hn, hended⟩⟩) hno
  · exact hopen

theorem within_seenAt (ht : Truthful B P) (ho : Orderly B P) : Within B (seenAt P) := by
  intro s hs
  by_cases hended : P.any (·.showsEnded s) = true
  · obtain ⟨e, he⟩ := stop_of_shown ht hs hended
    rw [seenAt_ended hended, he]
    refine ⟨(s.positive e he).le, fun e' he' => ?_, by omega, le_rfl⟩
    cases he'
    exact le_rfl
  · rw [seenAt_running hended]
    refine ⟨le_foldl_now _ _, fun e he => ?_, le_rfl, by omega⟩
    refine foldl_now (Q := (· ≤ e)) (s.positive e he).le fun q hq => ?_
    obtain ⟨hqP, hlive⟩ := List.mem_filter.1 hq
    exact now_le_of_live ho hs hended hqP hlive e he

theorem whole_seenTo (ho : Orderly B P) (hs : s ∈ B.sessions) : Whole (seenTo P s) := by
  obtain ⟨hstart, hstop⟩ := ho.whole_sessions s hs
  unfold seenTo
  split
  · cases he : s.stop with
    | none => exact hstart
    | some e => exact hstop e he
  · exact foldl_now hstart fun q hq => ho.whole_passes q (List.mem_filter.1 hq).1

theorem settled_of_shown (ht : Truthful B P) (hs : s ∈ B.sessions) (h : P.any (·.showsEnded s) = true) :
    Settled (seenAt P) s := by
  obtain ⟨e, he⟩ := stop_of_shown ht hs h
  exact ⟨e, he, by rw [seenAt_ended h, he, Option.getD_some]⟩

end Seen

/-! ## One pass over the reports -/

/-- The records a report has of one box, in the order they are walked. -/
def sightsOf (id : String) (n : NamedReport) : List HeldBox :=
  (Table.orderBy (·.startedAt) (boxesOf n.report)).filter fun b => b.id == id

section Reports

variable {id : String} {n : NamedReport} {s : Session}

theorem mem_sightsOf {x : HeldBox} : x ∈ sightsOf id n ↔ x ∈ boxesOf n.report ∧ x.id = id := by
  unfold sightsOf
  rw [List.mem_filter, (Table.orderBy_perm _ _).mem_iff, beq_iff_eq]

theorem heldUses_none : heldUses none = 0 := by decide

theorem sightsOf_silent (h : n.report.mentions id = false) : sightsOf id n = [] := by
  refine List.eq_nil_iff_forall_not_mem.2 fun x hx => ?_
  obtain ⟨hmem, hid⟩ := mem_sightsOf.1 hx
  have hno := List.any_eq_false.1 h x (mem_boxesOf hmem)
  exact hno (beq_iff_eq.2 hid)

theorem shown_of_silent (h : n.report.mentions s.box = false) :
    n.report.showsEnded s = false ∧ n.report.showsLive s = false := by
  have hno : ∀ b ∈ n.report.listed, b.session ≠ s.key := by
    intro b hb hkey
    have hbox : b.id = s.box := congrArg Prod.fst hkey
    exact List.any_eq_false.1 h b hb (beq_iff_eq.2 hbox)
  constructor
  · refine List.any_eq_false.2 fun v hv hkey => hno v.held ?_ (beq_iff_eq.1 hkey)
    exact List.mem_append_right _ (List.mem_map_of_mem hv)
  · refine List.any_eq_false.2 fun v hv hkey => hno v.held ?_ (beq_iff_eq.1 hkey)
    exact List.mem_append_left _ (List.mem_map_of_mem hv)

theorem sorted_sightsOf (id : String) (n : NamedReport) :
    (sightsOf id n).Pairwise fun x y => x.startedAt < y.startedAt := by
  have hle : (sightsOf id n).Pairwise fun x y => x.startedAt ≤ y.startedAt :=
    (Table.pairwise_orderBy HeldBox.startedAt (boxesOf n.report)).filter _
  have hne : (sightsOf id n).Pairwise fun x y => x.session ≠ y.session := by
    have hperm : (Table.orderBy (·.startedAt) (boxesOf n.report)).Pairwise fun x y => x.session ≠ y.session := by
      have huniq := unique_boxesOf n.report
      rw [Table.Unique, ((Table.orderBy_perm HeldBox.startedAt (boxesOf n.report)).map HeldBox.session).symm.nodup_iff]
        at huniq
      exact List.pairwise_map.1 huniq
    exact hperm.filter _
  refine (hle.and hne).imp_of_mem fun {x y} hx hy h => lt_of_le_of_ne h.1 fun heq => h.2 ?_
  have hid : x.id = y.id := (mem_sightsOf.1 hx).2.trans (mem_sightsOf.1 hy).2.symm
  exact Prod.ext hid heq

/-- A box is told of by no mount of a pass, or by one. -/
theorem one_mount {ns : List NamedReport}
    (h : ns.Pairwise fun n n' => ∀ b ∈ n.report.listed, ∀ b' ∈ n'.report.listed, b.id ≠ b'.id) (id : String) :
    (∀ n ∈ ns, n.report.mentions id = false) ∨ ∃ before n after, ns = before ++ n :: after ∧
      n.report.mentions id = true ∧ (∀ n' ∈ before, n'.report.mentions id = false) ∧
      ∀ n' ∈ after, n'.report.mentions id = false := by
  induction ns with
  | nil => exact .inl (by simp)
  | cons n ns ih =>
    obtain ⟨hfirst, hrest⟩ := List.pairwise_cons.1 h
    by_cases hn : n.report.mentions id = true
    · refine .inr ⟨[], n, ns, rfl, hn, by simp, fun n' hn' => ?_⟩
      obtain ⟨b, hb, hbid⟩ := List.any_eq_true.1 hn
      refine List.any_eq_false.2 fun b' hb' hbid' => hfirst n' hn' b hb b' hb' ?_
      rw [beq_iff_eq.1 hbid, beq_iff_eq.1 hbid']
    · have hsilent : n.report.mentions id = false := by simpa using hn
      rcases ih hrest with hall | ⟨before, m, after, rfl, hm, hbefore, hafter⟩
      · refine .inl fun n' hn' => ?_
        rcases List.mem_cons.1 hn' with rfl | hn'
        · exact hsilent
        · exact hall n' hn'
      · refine .inr ⟨n :: before, m, after, rfl, hm, fun n' hn' => ?_, hafter⟩
        rcases List.mem_cons.1 hn' with rfl | hn'
        · exact hsilent
        · exact hbefore n' hn'

end Reports

section Pass

variable {B : Boxes} {P : List HeldPass} {p : HeldPass} {id : String} {n : NamedReport}

/-- Each record of a report tells the truth of a session. -/
theorem sighting_of (ht : Truthful B P) (ho : Orderly B P) (hp : p ∈ P) (hn : n ∈ p.reports) {x : HeldBox}
    (hx : x ∈ boxesOf n.report) : ∃ s ∈ B.sessions, Sighting p.now s x ∧
      (n.report.showsLive s || n.report.showsEnded s) = true := by
  rcases List.mem_append.1 (mem_boxesOf hx) with hlive | hended
  · obtain ⟨v, hv, rfl⟩ := List.mem_map.1 hlive
    obtain ⟨s, hs, hkey⟩ := ht.live p hp n hn v hv
    have hshows : n.report.showsLive s = true := List.any_eq_true.2 ⟨v, hv, beq_iff_eq.2 hkey⟩
    refine ⟨s, hs, ?_, by rw [hshows, Bool.true_or]⟩
    have hopen : ∀ e ∈ s.stop, p.now ≤ e := by
      refine (ho.running p hp n hn s hs hshows).resolve_left fun hend => ?_
      obtain ⟨w, hw, hwkey⟩ := List.any_eq_true.1 hend
      obtain ⟨w', -, hsame, hmem⟩ := boxesOf_ended hw
      have heq : w'.held = v.held := List.inj_on_of_nodup_map (unique_boxesOf n.report) hmem hx
        (hsame.trans ((beq_iff_eq.1 hwkey).trans hkey.symm))
      exact absurd (congrArg HeldBox.endedAt heq) (by simp [EndedBox.held, LiveBox.held])
    exact .running hkey rfl heldUses_none hopen
  · obtain ⟨v, hv, rfl⟩ := List.mem_map.1 hended
    obtain ⟨s, hs, hkey, hstop, huses⟩ := ht.ended p hp n hn v hv
    have hshows : n.report.showsEnded s = true := List.any_eq_true.2 ⟨v, hv, beq_iff_eq.2 hkey⟩
    exact ⟨s, hs, .ended v.endedAt hkey hstop rfl huses, by rw [hshows, Bool.or_true]⟩

/-- A report that tells the end of a session has a record that closes it. -/
theorem closes_of_shown (ht : Truthful B P) (hp : p ∈ P) (hn : n ∈ p.reports) {t : Session} (htB : t ∈ B.sessions)
    (h : n.report.showsEnded t = true) : ∃ y ∈ sightsOf t.box n, Closes t y := by
  obtain ⟨w, hw, hkey⟩ := List.any_eq_true.1 h
  obtain ⟨v, hv, hsame, hmem⟩ := boxesOf_ended hw
  obtain ⟨s, hs, hvs, hstop, huses⟩ := ht.ended p hp n hn v hv
  have hvt : v.held.session = t.key := hsame.trans (beq_iff_eq.1 hkey)
  have hst : s = t := eq_of_key hs htB (hvs.symm.trans hvt)
  subst hst
  exact ⟨v.held, mem_sightsOf.2 ⟨hmem, congrArg Prod.fst hvt⟩, hvt, v.endedAt, hstop, rfl, huses⟩

theorem inOrder_sightsOf (ht : Truthful B (P ++ [p])) (ho : Orderly B (P ++ [p])) (hn : n ∈ p.reports) (id : String) :
    InOrder B id p.now (seenAt P) (sightsOf id n) := by
  have hp : p ∈ P ++ [p] := by simp
  refine ⟨sorted_sightsOf id n, fun x hx => ?_⟩
  obtain ⟨hmem, hid⟩ := mem_sightsOf.1 hx
  obtain ⟨s, hs, hsight, hshown⟩ := sighting_of ht ho hp hn hmem
  have hbox : x.id = s.box := congrArg Prod.fst hsight.key
  refine ⟨s, hs, hbox.symm.trans hid, hsight, fun t htB htid hends => ?_⟩
  rcases ho.in_order _ (last_split P p) n hn s hs hshown t htB (htid.trans (hbox.symm.trans hid).symm) hends with
    hbefore | hhere
  · exact .inl (settled_of_shown ht.init htB hbefore)
  · rw [← htid]
    exact .inr (closes_of_shown ht hp hn htB hhere)

theorem foldl_observe_absent {now : ℚ} {xs : List HeldBox} {seen : Seen} {s : Session}
    (h : ∀ x ∈ xs, x.session ≠ s.key) : xs.foldl (observe now) seen s = seen s := by
  induction xs generalizing seen with
  | nil => rfl
  | cons x xs ih =>
    rw [List.foldl_cons, ih fun y hy => h y (by simp [hy])]
    exact if_neg (h x (by simp))

theorem foldl_observe_mem {now : ℚ} {xs : List HeldBox} {seen : Seen} {s : Session} {x : HeldBox}
    (hn : xs.Pairwise fun x y => x.startedAt < y.startedAt) (hx : x ∈ xs) (hkey : x.session = s.key) :
    xs.foldl (observe now) seen s =
      (max (seen s).1 (x.endedAt.getD now), max (seen s).2 (heldUses x.uses)) := by
  induction xs generalizing seen with
  | nil => cases hx
  | cons y xs ih =>
    obtain ⟨hfirst, hrest⟩ := List.pairwise_cons.1 hn
    rw [List.foldl_cons]
    rcases List.mem_cons.1 hx with rfl | hx
    · rw [foldl_observe_absent fun z hz hzkey => ?_]
      · exact if_pos hkey
      · have hlt := hfirst z hz
        have hsame : z.startedAt = x.startedAt := congrArg Prod.snd (hzkey.trans hkey.symm)
        rw [hsame] at hlt
        exact lt_irrefl _ hlt
    · have hother : y.session ≠ s.key := by
        intro hykey
        have hlt := hfirst x hx
        have hsame : y.startedAt = x.startedAt := congrArg Prod.snd (hykey.trans hkey.symm)
        rw [hsame] at hlt
        exact lt_irrefl _ hlt
      rw [ih hrest hx]
      simp only [observe, if_neg hother]

/-- How far a pass leaves a session seen, when it shows it as its one report of the box does. -/
theorem seenAt_snoc (ht : Truthful B (P ++ [p])) (ho : Orderly B (P ++ [p])) (hn : n ∈ p.reports) {s : Session}
    (hs : s ∈ B.sessions) (hended : p.showsEnded s = n.report.showsEnded s)
    (hlive : p.showsLive s = n.report.showsLive s) :
    (sightsOf s.box n).foldl (observe p.now) (seenAt P) s = seenAt (P ++ [p]) s := by
  have hp : p ∈ P ++ [p] := by simp
  have hwithin := within_seenAt ht.init ho.init s hs
  by_cases hend : n.report.showsEnded s = true
  · obtain ⟨y, hy, hkey, e, hstop, hyend, hyuses⟩ := closes_of_shown ht hp hn hs hend
    rw [foldl_observe_mem (sorted_sightsOf s.box n) hy hkey, hyend, hyuses, Option.getD_some,
      max_eq_right (hwithin.2.1 e hstop), max_eq_right hwithin.2.2.2]
    have hnow : (P ++ [p]).any (·.showsEnded s) = true := by
      rw [List.any_append, List.any_cons, hended, hend, Bool.true_or, Bool.or_true]
    rw [seenAt_ended hnow, hstop, Option.getD_some]
  · have hnotended : n.report.showsEnded s = false := by simpa using hend
    have hsame : (P ++ [p]).any (·.showsEnded s) = P.any (·.showsEnded s) := by
      rw [List.any_append, List.any_cons, hended, hnotended, List.any_nil, Bool.or_false, Bool.or_false]
    by_cases hrun : n.report.showsLive s = true
    · obtain ⟨v, hv, hvkey⟩ := List.any_eq_true.1 hrun
      have hno : ∀ w ∈ n.report.usage, w.held.session ≠ v.held.session := by
        intro w hw heq
        exact hend (List.any_eq_true.2 ⟨w, hw, beq_iff_eq.2 (heq.trans (beq_iff_eq.1 hvkey))⟩)
      obtain ⟨v', -, hsess, hmem⟩ := boxesOf_live hv hno
      have hkey : v'.held.session = s.key := hsess.trans (beq_iff_eq.1 hvkey)
      have hin : v'.held ∈ sightsOf s.box n := mem_sightsOf.2 ⟨hmem, congrArg Prod.fst hkey⟩
      rw [foldl_observe_mem (sorted_sightsOf s.box n) hin hkey]
      have hzero : heldUses v'.held.uses = 0 := heldUses_none
      have hnow : v'.held.endedAt.getD p.now = p.now := rfl
      rw [hzero, hnow, max_eq_left hwithin.2.2.1]
      by_cases hbefore : P.any (·.showsEnded s) = true
      · obtain ⟨e, he⟩ := stop_of_shown ht.init hs hbefore
        have hle := (ho.running p hp n hn s hs hrun).resolve_left hend e he
        rw [seenAt_ended hbefore, seenAt_ended (hsame.trans hbefore), he, Option.getD_some, max_eq_left hle]
      · have hafter : ¬(P ++ [p]).any (·.showsEnded s) = true := by
          rw [hsame]
          exact hbefore
        rw [seenAt_running hbefore, seenAt_running hafter, List.filter_append, List.filter_cons, hlive, hrun,
          if_pos rfl, List.filter_nil, List.foldl_append]
        rfl
    · have habsent : ∀ x ∈ sightsOf s.box n, x.session ≠ s.key := by
        intro x hx hkey
        rcases List.mem_append.1 (mem_boxesOf (mem_sightsOf.1 hx).1) with h | h
        · obtain ⟨v, hv, rfl⟩ := List.mem_map.1 h
          exact hrun (List.any_eq_true.2 ⟨v, hv, beq_iff_eq.2 hkey⟩)
        · obtain ⟨v, hv, rfl⟩ := List.mem_map.1 h
          exact hend (List.any_eq_true.2 ⟨v, hv, beq_iff_eq.2 hkey⟩)
      rw [foldl_observe_absent habsent]
      unfold seenAt seenTo
      rw [hsame, List.filter_append, List.filter_cons, hlive, if_neg hrun, List.filter_nil, List.append_nil]

end Pass

/-! ## What a pass leaves in the tables -/

section Tables

variable {id : String} {now : ℚ}

theorem countMount_mark (who : Who) (counted : String → Option HeldMark) (db : HeldDb) (n : NamedReport) :
    heldCounted (countMount who now counted db n).held id =
      ((lastMark (boxLoop now (sightsOf id n) (counted id)).2).map (·.stored)).or (heldCounted db.held id) := by
  obtain ⟨hunique, hmark, -⟩ := heldLoop_box counted now id (Table.orderBy (·.startedAt) (boxesOf n.report))
    Table.unique_nil
  have hnone : getMark id [] = none := rfl
  rw [hnone, Option.none_or, Option.or_none] at hmark
  unfold countMount heldRows
  rw [heldCounted_storeMarks id hunique, hmark]
  rfl

theorem foldl_silent (who : Who) (counted : String → Option HeldMark) {ns : List NamedReport}
    (h : ∀ n ∈ ns, n.report.mentions id = false) (db : HeldDb) :
    heldCounted (ns.foldl (countMount who now counted) db).held id = heldCounted db.held id := by
  induction ns generalizing db with
  | nil => rfl
  | cons n ns ih =>
    rw [List.foldl_cons, ih (fun m hm => h m (by simp [hm])), countMount_mark, sightsOf_silent (h n (by simp))]
    rfl

theorem seen_mentions (p : HeldPass) :
    (p.reports.flatMap fun n => (boxesOf n.report).map (·.id)).contains id = p.mentions id := by
  rw [Bool.eq_iff_iff, List.contains_iff_mem, List.mem_flatMap]
  unfold HeldPass.mentions
  rw [List.any_eq_true]
  refine exists_congr fun n => and_congr_right fun _ => ?_
  rw [List.mem_map, MountReport.mentions, List.any_eq_true]
  constructor
  · rintro ⟨b, hb, rfl⟩
    exact ⟨b, mem_boxesOf hb, beq_self_eq_true _⟩
  · rintro ⟨b, hb, hid⟩
    have hsome : (n.report.listed.reverse.find? fun b' => b'.session == b.session).isSome = true := by
      rw [List.find?_isSome]
      exact ⟨b, List.mem_reverse.2 hb, beq_self_eq_true _⟩
    rw [← one_boxesOf] at hsome
    obtain ⟨b', hb'⟩ := Option.isSome_iff_exists.1 hsome
    have hfound := Table.one_some hb'
    have hsame : b'.session = b.session := beq_iff_eq.1 hfound
    exact ⟨b', Table.one_mem hb', (congrArg Prod.fst hsame).trans (beq_iff_eq.1 hid)⟩

/-- The watermark a pass leaves: the walk's, unless the box is silent and the one there was is a week old. -/
theorem heldCounted_exec (who : Who) (p : HeldPass) (db : HeldDb) :
    heldCounted (heldExec who p db).2.held id =
      if (heldCounted db.held id).any (fun m => !p.mentions id && decide (m.through < p.now - keepMarksMs)) then none
      else heldCounted (p.reports.foldl (countMount who p.now (heldCounted db.held)) db).held id := by
  let keeps := fun i : String => !((heldCounted db.held i).any fun m =>
    !(p.reports.flatMap fun n => (boxesOf n.report).map (·.id)).contains i &&
      decide (m.through < p.now - keepMarksMs))
  have hfilter := Table.one_filter_key (fun r : HeldRow => r.boxId) keeps id
    (p.reports.foldl (countMount who p.now (heldCounted db.held)) db).held
  have hkeeps : keeps id = !((heldCounted db.held id).any fun m =>
      !p.mentions id && decide (m.through < p.now - keepMarksMs)) := by
    simp only [keeps, seen_mentions]
  have hexec : heldCounted (heldExec who p db).2.held id =
      if keeps id then heldCounted (p.reports.foldl (countMount who p.now (heldCounted db.held)) db).held id else none := by
    unfold heldExec countHeldTime dropMarks
    dsimp only
    rw [heldCounted, hfilter]
    split
    · rfl
    · rfl
  rw [hexec, hkeeps]
  cases (heldCounted db.held id).any fun m => !p.mentions id && decide (m.through < p.now - keepMarksMs) with
  | true => rfl
  | false => rfl

theorem passEntries_counted (db : HeldDb) (p : HeldPass) :
    ((passEntries db p).filter fun e => e.2.box.id == id).map (fun e => e.2.counted) =
      p.reports.flatMap fun n => (boxLoop p.now (sightsOf id n) (heldCounted db.held id)).2 := by
  unfold passEntries
  induction p.reports with
  | nil => rfl
  | cons n ns ih =>
    obtain ⟨-, -, hparts⟩ := heldLoop_box (heldCounted db.held) p.now id
      (Table.orderBy (·.startedAt) (boxesOf n.report)) Table.unique_nil
    rw [List.flatMap_cons, List.filter_append, List.map_append, ih, List.flatMap_cons]
    congr 1
    rw [List.filter_map, List.map_map]
    exact hparts

theorem flatMap_silent {m : Option HeldMark} {ns : List NamedReport} (h : ∀ n ∈ ns, n.report.mentions id = false) :
    (ns.flatMap fun n => (boxLoop now (sightsOf id n) m).2) = [] := by
  refine List.flatMap_eq_nil_iff.2 fun n hn => ?_
  rw [sightsOf_silent (h n hn)]
  rfl

end Tables

/-! ## What the rows are worth -/

section Worth

variable (who : Who) (keyOf : HeldBox → Str) (e : HeldEntry)

theorem worth_append (p : BucketKey → Bool) (rows rows' : List UsageRow) :
    worth p (rows ++ rows') = worth p rows + worth p rows' := by
  rw [worth, List.map_append, List.sum_append]
  rfl

theorem worth_other {p : BucketKey → Bool} {rows : List UsageRow} (h : ∀ r ∈ rows, p r.bucket = false) :
    worth p rows = 0 := by
  induction rows with
  | nil => rfl
  | cons r rows ih =>
    rw [worth, List.map_cons, List.sum_cons, h r (by simp), ← worth, ih fun r' hr' => h r' (by simp [hr'])]
    simp

theorem worth_seconds {h : Int} (hd : ∀ part ∈ e.counted.parts, hourMs ∣ part.1) :
    worth (secondsIn who h) (e.rows who keyOf) =
      Ledger.total (fun k => decide (k = h)) e.counted.parts / 1000 := by
  have hexecs : ∀ r ∈ (if e.counted.uses = 0 then [] else
      [execsRow who (keyOf e.box) ((e.counted.parts.getLast?.map (·.1)).getD (hourStart e.counted.upTo))
        e.counted.uses]), secondsIn who h r.bucket = false := by
    intro r hr
    split at hr
    · cases hr
    · rw [List.mem_singleton.1 hr]
      simp [secondsIn, UsageRow.bucket, execsRow]
  unfold HeldEntry.rows
  dsimp only
  rw [worth_append, worth_other hexecs, add_zero]
  generalize e.counted.parts = parts at hd
  induction parts with
  | nil => simp [worth]
  | cons part parts ih =>
    have hhour : hourOf part.1 = part.1 := hourOf_hour (hd part (by simp))
    rw [List.map_cons, worth, List.map_cons, List.sum_cons, ← worth, ih fun q hq => hd q (by simp [hq]),
      Ledger.total_cons, add_div]
    congr 1
    by_cases hp : part.1 = h
    · subst hp
      simp [secondsIn, UsageRow.bucket, secondsRow, hhour]
    · simp [secondsIn, UsageRow.bucket, secondsRow, hhour, hp]

theorem worth_execs : worth (execsOf who) (e.rows who keyOf) = e.counted.uses := by
  have hseconds : ∀ r ∈ e.counted.parts.map (secondsRow who (keyOf e.box)), execsOf who r.bucket = false := by
    intro r hr
    obtain ⟨part, -, rfl⟩ := List.mem_map.1 hr
    simp [execsOf, UsageRow.bucket, secondsRow]
  unfold HeldEntry.rows
  dsimp only
  rw [worth_append, worth_other hseconds, zero_add]
  split
  · rename_i hzero
    rw [hzero]
    rfl
  · simp [worth, execsOf, UsageRow.bucket, execsRow]

end Worth

/-! ## Any sequence of passes -/

/-- The watermark of a box was forgotten: a pass told nothing of it, over a week after it was last seen. -/
def Dropped (B : Boxes) (P : List HeldPass) (id : String) : Prop :=
  ∃ x ∈ History.splits P, x.2.1.mentions id = false ∧
    (∃ t ∈ B.sessions, t.box = id ∧ t.start < seenTo x.1 t) ∧
    ∀ t ∈ B.sessions, t.box = id → t.start < seenTo x.1 t → seenTo x.1 t < x.2.1.now - keepMarksMs

/-- What holds of a box after passes. -/
structure BoxRight (who : Who) (B : Boxes) (P : List HeldPass) (id : String) : Prop where
  mark : Dropped B P id ∨ Marked B id (seenAt P) (heldCounted (heldAfter who P).held id)
  seconds : ∀ h, hourMs ∣ h →
    heldBilled who (secondsIn who h) (· == id) P = seenIn B id h (seenAt P) / 1000
  execs : heldBilled who (execsOf who) (· == id) P = seenUsesOf B id (seenAt P)

section Run

variable {who : Who} {B : Boxes} {P : List HeldPass} {p : HeldPass} {id : String}

theorem heldAfter_snoc (who : Who) (P : List HeldPass) (p : HeldPass) :
    heldAfter who (P ++ [p]) = (heldExec who p (heldAfter who P)).2 := History.final_append ..

theorem heldEntries_snoc (who : Who) (P : List HeldPass) (p : HeldPass) :
    heldEntries who (P ++ [p]) = heldEntries who P ++ passEntries (heldAfter who P) p := by
  rw [heldEntries, History.turns_append, List.flatMap_append]
  simp [heldEntries, heldAfter, History.turn]

theorem billed_snoc (r : BucketKey → Bool) :
    heldBilled who r (· == id) (P ++ [p]) = heldBilled who r (· == id) P +
      (((passEntries (heldAfter who P) p).filter fun e => e.2.box.id == id).map
        fun e => worth r (e.2.rows who e.1.keyOf)).sum := by
  rw [heldBilled, heldEntries_snoc, List.filter_append, List.map_append, List.sum_append]
  rfl

theorem passEntries_hours {db : HeldDb} {e : NamedReport × HeldEntry} (he : e ∈ passEntries db p) :
    ∀ part ∈ e.2.counted.parts, hourMs ∣ part.1 := by
  obtain ⟨n, -, he⟩ := List.mem_flatMap.1 he
  obtain ⟨e', he', rfl⟩ := List.mem_map.1 he
  exact heldLoop_hours e' he'

/-- What a pass bills of a box, from what its walk counts. -/
theorem pass_worth (db : HeldDb) (p : HeldPass) (id : String) {cs : List Counted}
    (hcs : (p.reports.flatMap fun n => (boxLoop p.now (sightsOf id n) (heldCounted db.held id)).2) = cs) :
    (∀ h, (((passEntries db p).filter fun e => e.2.box.id == id).map
        fun e => worth (secondsIn who h) (e.2.rows who e.1.keyOf)).sum =
      (cs.map fun c => Ledger.total (fun k => decide (k = h)) c.parts).sum / 1000) ∧
    (((passEntries db p).filter fun e => e.2.box.id == id).map
        fun e => worth (execsOf who) (e.2.rows who e.1.keyOf)).sum = ((cs.map (·.uses)).sum : Int) := by
  rw [← passEntries_counted] at hcs
  have hhours : ∀ e ∈ (passEntries db p).filter fun e => e.2.box.id == id, ∀ part ∈ e.2.counted.parts,
      hourMs ∣ part.1 := fun e he => passEntries_hours (List.mem_filter.1 he).1
  rw [← hcs]
  generalize (passEntries db p).filter (fun e => e.2.box.id == id) = es at hhours
  constructor
  · intro h
    induction es with
    | nil => simp
    | cons e es ih =>
      rw [List.map_cons, List.sum_cons, ih fun e' he' => hhours e' (by simp [he']),
        worth_seconds who e.1.keyOf e.2 (hhours e (by simp)), List.map_cons, List.map_cons, List.sum_cons, add_div]
  · clear hhours hcs
    induction es with
    | nil => simp
    | cons e es ih =>
      rw [List.map_cons, List.sum_cons, ih, worth_execs, List.map_cons, List.map_cons, List.sum_cons, Int.cast_add]

theorem seenIn_congr {seen seen' : Seen} (h : ∀ s ∈ B.sessions, s.box = id → seen' s = seen s) (k : Int) :
    seenIn B id k seen' = seenIn B id k seen ∧ seenUsesOf B id seen' = seenUsesOf B id seen := by
  constructor
  · refine congrArg List.sum (List.map_congr_left fun s hs => ?_)
    rw [h s (mem_ofBox.1 hs).1 (mem_ofBox.1 hs).2]
  · refine congrArg List.sum (List.map_congr_left fun s hs => ?_)
    rw [h s (mem_ofBox.1 hs).1 (mem_ofBox.1 hs).2]

theorem Marked.congr_box {seen seen' : Seen} {m : Option HeldMark}
    (h : ∀ s ∈ B.sessions, s.box = id → seen' s = seen s) (hm : Marked B id seen m) : Marked B id seen' m := by
  cases m with
  | none => exact fun s hs hbox => (h s hs hbox).trans (hm s hs hbox)
  | some mk =>
    obtain ⟨c, hc, hbox, hlt, hseen, hrest⟩ := hm
    refine ⟨c, hc, hbox, hlt, (h c hc hbox).trans hseen, fun s hs hb hne => ?_⟩
    refine (hrest s hs hb hne).imp ?_ ?_
    · rintro ⟨hends, e, he, hset⟩
      exact ⟨hends, e, he, (h s hs hb).trans hset⟩
    · rintro ⟨hends, hun⟩
      exact ⟨hends, (h s hs hb).trans hun⟩

theorem dropped_snoc (h : Dropped B P id) : Dropped B (P ++ [p]) id := by
  obtain ⟨x, hx, hrest⟩ := h
  exact ⟨(x.1, x.2.1, x.2.2 ++ [p]), splits_init hx, hrest⟩

/-- A box whose watermark was forgotten is not told of again. -/
theorem silent_of_dropped (ho : Orderly B (P ++ [p])) (h : Dropped B P id) : p.mentions id = false := by
  obtain ⟨x, hx, hsilent, ⟨t, ht, rfl, hseen⟩, hall⟩ := h
  by_contra hmentions
  rw [Bool.not_eq_false] at hmentions
  obtain ⟨s, hs, hbox, hsseen, hkept⟩ := ho.kept _ (splits_init hx) t ht hseen hsilent (by
    rw [List.any_append, List.any_cons, hmentions, Bool.true_or, Bool.or_true])
  exact absurd (hall s hs hbox hsseen) (not_lt.2 hkept)

/-- A watermark the walk leaves is one the table can keep. -/
theorem stored_of_marked (ho : Orderly B P) {m : Option HeldMark} (hm : Marked B id (seenAt P) m) :
    m.map (·.stored) = m := by
  cases m with
  | none => rfl
  | some mk =>
    obtain ⟨c, hc, -, -, hseen, -⟩ := hm
    have hwhole : Whole mk.through := by
      have hto : (seenAt P c).1 = mk.through := by rw [hseen]
      rw [← hto]
      exact whole_seenTo ho hc
    have hround : ((mathRound mk.through : Int) : ℚ) = mk.through := by
      have hint := mathRound_int ⌊mk.through⌋
      unfold Whole at hwhole
      rw [hwhole] at hint
      rw [hint, hwhole]
    simp [HeldMark.stored, hround]

theorem stored_or (a m : Option HeldMark) (hm : m.map (·.stored) = m) :
    (a.map (·.stored)).or m = (a.or m).map (·.stored) := by
  cases a with
  | none => exact hm.symm
  | some mk => rfl

/-- One pass keeps what holds of a box. -/
theorem pass_marked (ht : Truthful B (P ++ [p])) (ho : Orderly B (P ++ [p])) (hr : BoxRight who B P id) :
    BoxRight who B (P ++ [p]) id := by
  have hp : p ∈ P ++ [p] := by simp
  rcases one_mount (ho.one_mount p hp) id with hsilent | ⟨before, n, after, hreports, hn, hbefore, hafter⟩
  · -- No mount tells of the box: nothing of it is seen, counted or billed.
    have hmentions : p.mentions id = false := List.any_eq_false.2 fun n hn => by simp [hsilent n hn]
    have hsame : ∀ s ∈ B.sessions, s.box = id → seenAt (P ++ [p]) s = seenAt P s := by
      intro s hs hbox
      have hended : p.showsEnded s = false :=
        List.any_eq_false.2 fun n hn => by simp [(shown_of_silent (hbox ▸ hsilent n hn)).1]
      have hlive : p.showsLive s = false :=
        List.any_eq_false.2 fun n hn => by simp [(shown_of_silent (hbox ▸ hsilent n hn)).2]
      unfold seenAt seenTo
      simp [List.any_append, List.filter_append, hended, hlive]
    obtain ⟨hseconds, hexecs⟩ := @pass_worth who (heldAfter who P) p id _ (flatMap_silent hsilent)
    refine ⟨?_, fun h hd => ?_, ?_⟩
    · rcases hr.mark with hdropped | hmarked
      · exact .inl (dropped_snoc hdropped)
      · rw [heldAfter_snoc, heldCounted_exec, foldl_silent who _ hsilent]
        split
        · rename_i hdrop
          left
          obtain ⟨mk, hmk, hold⟩ := (Option.any_eq_true _ _).1 hdrop
          rw [hmk] at hmarked
          obtain ⟨c, hc, hcb, hlt, hseen, hrest⟩ := hmarked
          have hto : seenTo P c = mk.through := congrArg Prod.fst hseen
          rw [Bool.and_eq_true, decide_eq_true_eq] at hold
          refine ⟨_, last_split P p, hmentions, ⟨c, hc, hcb, by rw [hto]; exact hlt⟩, fun t htB htb hlate => ?_⟩
          by_cases htc : t = c
          · rw [htc, hto]
            exact hold.2
          · rcases hrest t htB htb htc with ⟨hends, e, he, hset⟩ | ⟨-, hun⟩
            · obtain ⟨e', he', hle⟩ := endsBy_iff.1 hends
              rw [he] at he'
              cases he'
              have hte : seenTo P t = e := congrArg Prod.fst hset
              rw [hte]
              exact (hle.trans_lt hlt).trans hold.2
            · have hte : seenTo P t = t.start := congrArg Prod.fst hun
              exact absurd hlate (by rw [hte]; exact lt_irrefl _)
        · exact .inr (hmarked.congr_box hsame)
    · rw [billed_snoc, hseconds, hr.seconds h hd, (seenIn_congr hsame h).1]
      simp
    · rw [billed_snoc, hexecs, hr.execs, (seenIn_congr hsame 0).2]
      simp
  · -- One mount tells of it, and its walk is the box's.
    have hmem : n ∈ p.reports := by rw [hreports]; simp
    have hmentions : p.mentions id = true := List.any_eq_true.2 ⟨n, hmem, hn⟩
    have hmarked : Marked B id (seenAt P) (heldCounted (heldAfter who P).held id) := by
      refine hr.mark.resolve_left fun hdropped => ?_
      rw [silent_of_dropped ho hdropped] at hmentions
      cases hmentions
    have hwalk := boxLoop_marked (within_seenAt ht.init ho.init) hmarked (inOrder_sightsOf ht ho hmem id)
    have hseen : ∀ s ∈ B.sessions, s.box = id →
        seenAt (P ++ [p]) s = (sightsOf id n).foldl (observe p.now) (seenAt P) s := by
      intro s hs hbox
      subst hbox
      have hone : ∀ f : NamedReport → Bool, (∀ n' ∈ before, f n' = false) → (∀ n' ∈ after, f n' = false) →
          p.reports.any f = f n := by
        intro f hb ha
        rw [hreports, List.any_append, List.any_cons, List.any_eq_false.2 fun n' hn' => by simp [hb n' hn'],
          List.any_eq_false.2 fun n' hn' => by simp [ha n' hn'], Bool.false_or, Bool.or_false]
      refine (seenAt_snoc ht ho hmem hs ?_ ?_).symm
      · exact hone _ (fun n' hn' => (shown_of_silent (hbefore n' hn')).1)
          fun n' hn' => (shown_of_silent (hafter n' hn')).1
      · exact hone _ (fun n' hn' => (shown_of_silent (hbefore n' hn')).2)
          fun n' hn' => (shown_of_silent (hafter n' hn')).2
    obtain ⟨-, hmark, hsec, huses⟩ := hwalk
    have hmark' : Marked B id (seenAt (P ++ [p]))
        (boxLoop p.now (sightsOf id n) (heldCounted (heldAfter who P).held id)).1 := hmark.congr_box hseen
    have hcs : (p.reports.flatMap fun n => (boxLoop p.now (sightsOf id n) (heldCounted (heldAfter who P).held id)).2) =
        (boxLoop p.now (sightsOf id n) (heldCounted (heldAfter who P).held id)).2 := by
      rw [hreports, List.flatMap_append, List.flatMap_cons, flatMap_silent hbefore, flatMap_silent hafter,
        List.nil_append, List.append_nil]
    obtain ⟨hseconds, hexecs⟩ := @pass_worth who (heldAfter who P) p id _ hcs
    refine ⟨.inr ?_, fun h hd => ?_, ?_⟩
    · rw [heldAfter_snoc, heldCounted_exec, hmentions]
      simp only [Bool.not_true, Bool.false_and, Option.any_false, Bool.false_eq_true, if_false]
      rw [hreports, List.foldl_append, List.foldl_cons, foldl_silent who _ hafter, countMount_mark,
        foldl_silent who _ hbefore, stored_or _ _ (stored_of_marked ho.init hmarked), ← boxLoop_mark,
        stored_of_marked ho hmark']
      exact hmark'
    · rw [billed_snoc, hseconds, hr.seconds h hd, hsec h hd, (seenIn_congr hseen h).1]
      ring
    · rw [billed_snoc, hexecs, hr.execs, huses, (seenIn_congr hseen 0).2]
      push_cast
      ring

theorem boxRight (ht : Truthful B P) (ho : Orderly B P) (id : String) : BoxRight who B P id := by
  induction P using List.reverseRecOn with
  | nil =>
    have hun : ∀ s ∈ B.sessions, s.box = id → Unseen (seenAt []) s := fun _ _ _ => rfl
    refine ⟨.inr hun, fun h _ => ?_, ?_⟩
    · have hzero : seenIn B id h (seenAt []) = 0 := by
        refine List.sum_eq_zero fun x hx => ?_
        obtain ⟨s, -, rfl⟩ := List.mem_map.1 hx
        exact inHour_empty le_rfl
      rw [hzero]
      simp [heldBilled, heldEntries]
    · have hzero : seenUsesOf B id (seenAt []) = 0 := by
        refine List.sum_eq_zero fun x hx => ?_
        obtain ⟨s, -, rfl⟩ := List.mem_map.1 hx
        rfl
      rw [hzero]
      simp [heldBilled, heldEntries]
  | append_singleton P p ih => exact pass_marked ht ho (ih ht.init ho.init)

end Run

/-! ## The ledger, and what is in it -/

section Ledger

variable {who : Who}

theorem worth_flatMap (r : BucketKey → Bool) (f : HeldEntry → List UsageRow) (es : List HeldEntry) :
    worth r (es.flatMap f) = (es.map fun e => worth r (f e)).sum := by
  induction es with
  | nil => rfl
  | cons e es ih => rw [List.flatMap_cons, worth_append, ih, List.map_cons, List.sum_cons]

/-- A pass adds to the ledger what it bills of its boxes, besides the marks of unreadable records. -/
theorem amount_exec {r : BucketKey → Bool} (hr : ∀ k, r k = true → k.unit ≠ "unreadable") (p : HeldPass)
    (db : HeldDb) :
    (heldExec who p db).2.outbox.amount r =
      db.outbox.amount r + ((passEntries db p).map fun e => worth r (e.2.rows who e.1.keyOf)).sum := by
  have hmount : ∀ (ns : List NamedReport) (db' : HeldDb),
      (ns.foldl (countMount who p.now (heldCounted db.held)) db').outbox.amount r = db'.outbox.amount r +
        ((ns.flatMap fun n => (heldRows (boxesOf n.report) (heldCounted db.held) p.now).1.map fun e => (n, e)).map
          fun e : NamedReport × HeldEntry => worth r (e.2.rows who e.1.keyOf)).sum := by
    intro ns
    induction ns with
    | nil => simp
    | cons n ns ih =>
      intro db'
      have hmarker : worth r (heldUnreadableRows who (payerKey n.plugin n.own) n.report p.now) = 0 := by
        refine worth_other fun row hrow => ?_
        unfold heldUnreadableRows at hrow
        split at hrow
        · cases hrow
        · rw [List.mem_singleton.1 hrow]
          by_contra hmet
          exact hr _ (by simpa using hmet) rfl
      rw [List.foldl_cons, ih, List.flatMap_cons, List.map_append, List.sum_append, countMount,
        amount_appendUsage, NamedReport.rows, ← worth, worth_append, hmarker, worth_flatMap, List.map_map, add_zero,
        add_assoc]
      rfl
  exact hmount p.reports db

theorem ledger_billed {r : BucketKey → Bool} (hr : ∀ k, r k = true → k.unit ≠ "unreadable") (P : List HeldPass) :
    (heldAfter who P).outbox.amount r = heldBilled who r (fun _ => true) P := by
  induction P using List.reverseRecOn with
  | nil => rfl
  | append_singleton P p ih =>
    rw [heldAfter_snoc, amount_exec hr, ih]
    simp only [heldBilled, heldEntries_snoc, List.filter_true, List.map_append, List.sum_append]

/-- No pass writes a quantity that is not above zero, whatever the reports and the clocks. -/
theorem rows_positive (who : Who) (P : List HeldPass) : ∀ row ∈ (heldAfter who P).outbox.rows, 0 < row.quantity := by
  have hmount : ∀ (now : ℚ) (counted : String → Option HeldMark) (ns : List NamedReport) (db : HeldDb),
      (∀ row ∈ db.outbox.rows, 0 < row.quantity) →
      ∀ row ∈ (ns.foldl (countMount who now counted) db).outbox.rows, 0 < row.quantity := by
    intro now counted ns
    induction ns with
    | nil => exact fun db h => h
    | cons n ns ih =>
      intro db hdb
      refine ih _ fun row hrow => ?_
      rcases List.mem_append.1 hrow with hold | hnew
      · exact hdb row hold
      · obtain ⟨r, hmem, -, hquantity⟩ := mem_keptRows hnew
        obtain ⟨q, hq, hpos⟩ := entries_positive who now counted n r hmem
        rw [hquantity, hq]
        exact hpos
  refine History.final_invariant (I := fun db : HeldDb => ∀ row ∈ db.outbox.rows, 0 < row.quantity) ?_ ?_
  · intro row hrow
    cases hrow
  · intro p db hdb
    exact hmount p.now _ p.reports db hdb

end Ledger

/-- After any passes over boxes whose sessions the reports tell of in order, each box is billed once; the ledger holds
what the boxes are billed, and nothing below zero whatever is reported. -/
theorem held_time_once (who : Who) (B : Boxes) (P : List HeldPass) (ht : Truthful B P) (ho : Orderly B P) :
    BilledOnce who B P ∧
    (∀ r : BucketKey → Bool, (∀ k, r k = true → k.unit ≠ "unreadable") →
      (heldAfter who P).outbox.amount r = heldBilled who r (fun _ => true) P) ∧
    ∀ P', ∀ row ∈ (heldAfter who P').outbox.rows, 0 < row.quantity :=
  ⟨⟨fun id h hd => (boxRight ht ho id).seconds h hd, fun id => (boxRight ht ho id).execs⟩,
    fun _ hr => ledger_billed hr P, rows_positive who⟩

section Runs

/-- A minute, with two uses told at its end. -/
def firstMinute : Session := ⟨"b", 0, some 60000, 2, by simp⟩

/-- A session of the same box that goes on from there. -/
def wokenThen : Session := ⟨"b", 60000, none, 0, by simp⟩

def liveReport (startedAt : ℚ) : MountReport := ⟨some ⟨"b", startedAt, none⟩, [], [], 0⟩

def endedReport (stop : ℚ) (uses : Nat) : MountReport := ⟨none, [], [⟨"b", 0, stop, some uses, none⟩], 0⟩

def bothReport : MountReport := ⟨some ⟨"b", 60000, none⟩, [], [⟨"b", 0, 60000, some 2, none⟩], 0⟩

def passAt (now : ℚ) (reports : List MountReport) : HeldPass := ⟨now, reports.map fun r => ⟨[], r, false⟩⟩

def oneMinute : Boxes := ⟨[firstMinute], by decide⟩

def minuteAndOn : Boxes := ⟨[firstMinute, wokenThen], by decide⟩

/-- A session seen running, then closed beside the next one, which starts where the watermark stands. -/
theorem held_time_once_eval : BilledOnce ⟨"t", "a"⟩ minuteAndOn
    [passAt 30000 [liveReport 0], passAt 90000 [bothReport], passAt 90000 [bothReport]] :=
  (held_time_once _ _ _ ⟨by decide, by decide⟩
    ⟨by decide, by decide, by decide, by decide, by decide,
      by decide⟩).1

/-- Passes at times that do not step back, whose reports are true, and tell the end of each session that has one. -/
structure Told (B : Boxes) (P : List HeldPass) : Prop where
  clock : P.Pairwise fun p q => p.now ≤ q.now
  true_ : Truthful B P
  ends : ∀ s ∈ B.sessions, ∀ e ∈ s.stop, ∃ p ∈ P, e ≤ p.now ∧ p.showsEnded s = true

def quarterOver : Boxes := ⟨[⟨"b", 0, some (240001 / 4), 0, by norm_num⟩], by decide⟩

def quarterReport : MountReport := ⟨none, [], [⟨"b", 0, 240001 / 4, none, none⟩], 0⟩

theorem not_billedOnce {B : Boxes} {P : List HeldPass}
    (h : heldBilled ⟨"t", "a"⟩ (secondsIn ⟨"t", "a"⟩ 0) (· == "b") P ≠
      ((B.ofBox "b").map fun s => inHour 0 (s.start, seenTo P s)).sum / 1000) : ¬BilledOnce ⟨"t", "a"⟩ B P :=
  fun hall => h (hall.1 "b" 0 (dvd_zero _))

/-- The reports are as they should be, and some box is not billed once. -/
def Misbilled (B : Boxes) (P : List HeldPass) : Prop := Told B P ∧ ¬BilledOnce ⟨"t", "a"⟩ B P

/-- Where one watermark a box is not enough: a later session told of first; a box silent for a week and told of again; a
session told of as running by a pass after its end; times that are no whole milliseconds; a box in two mounts. -/
theorem watermark_relies :
    Misbilled minuteAndOn [passAt 90000 [liveReport 60000], passAt 100000 [bothReport]] ∧
    Misbilled oneMinute
      [passAt 60000 [endedReport 60000 2], passAt 700000000 [], passAt 700000000 [endedReport 60000 2]] ∧
    Misbilled oneMinute [passAt 90000 [liveReport 0], passAt 100000 [endedReport 60000 2]] ∧
    Misbilled quarterOver [passAt 70000 [quarterReport], passAt 70000 [quarterReport]] ∧
    Misbilled oneMinute [passAt 70000 [endedReport 60000 2, endedReport 60000 2]] := by
  refine ⟨⟨⟨?_, ⟨?_, ?_⟩, ?_⟩, not_billedOnce ?_⟩, ⟨⟨?_, ⟨?_, ?_⟩, ?_⟩, not_billedOnce ?_⟩,
    ⟨⟨?_, ⟨?_, ?_⟩, ?_⟩, not_billedOnce ?_⟩, ⟨⟨?_, ⟨?_, ?_⟩, ?_⟩, not_billedOnce ?_⟩,
    ⟨⟨?_, ⟨?_, ?_⟩, ?_⟩, not_billedOnce ?_⟩⟩
  all_goals decide +kernel

end Runs

end Usage
end Antiproton
