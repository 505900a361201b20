import Antiproton.Lib.History
import Antiproton.Publish.Sound

/-!
# Antiproton.Publish.Converges

The provider's copy of an agent's held calls over every sequence of store writes, passes, registry changes and writes that
land in D1, with any pass cut short at any wait.

* `copies_step`: a copy in D1 stays where it is or goes further.
* `valid_step`: one step keeps the tables, the passes under way, D1 and the hints in agreement.
* `published_converges`: what is marked published is in D1, and the rest of the record of each hold.
-/

namespace Antiproton.Publish

open Js

theorem Onward.of_rank {s c t : ApprovalState} (hs : Onward s t) (hc : Onward c t) (h : STATE_RANK s ≤ STATE_RANK c) :
    Onward s c := by
  rcases Nat.lt_or_eq_of_le h with h | h
  · exact .inr h
  · left
    rcases hs with rfl | hs
    · rcases hc with rfl | hc
      · rfl
      · omega
    · rcases hc with rfl | hc
      · omega
      · cases s <;> cases c <;> first | rfl | (revert h; decide) | (cases t <;> revert hs hc <;> decide)

section World

variable {who : Agent} {hintTarget : ProvisionedAgent → Option String} {w : World}

/-- The parts of a world in agreement. -/
structure Valid (who : Agent) (w : World) : Prop where
  sound : Sound who w.copies w.hints w.tables
  joined : ∀ s ∈ w.passes, ∀ j ∈ s.joined, Read who w.copies w.tables j
  ready : ∀ s ∈ w.passes, s.Ready w.copies w.hints w.writes
  covers : ∀ s ∈ w.passes, s.Covers w.tables
  copied : ∀ op c, statusOf op w.copies = some c → w.tables.Was who op c
  writes : ∀ x ∈ w.writes, w.tables.Was who x.row.operationId x.row.status ∧
    (x.landed = true → InD1 w.copies x.row.operationId x.row.status)
  hints : ∀ h ∈ w.hints, h.reg.deletedAt = none ∧ InD1 w.copies h.operationId h.status

theorem valid_empty : Valid who World.empty := by
  refine ⟨⟨List.nodup_nil, ?_, ?_, ?_, fun before x after h => ?_, ?_, ?_⟩, ?_, ?_, ?_, fun op c h => ?_, ?_, ?_⟩
  case refine_4 => simp [World.empty] at h
  case refine_10 => simp [World.empty, statusOf, Table.one] at h
  all_goals exact fun x hx => absurd hx (List.not_mem_nil)

/-- Copies that only go further. -/
def Further (copies copies' : List IndexRow) : Prop :=
  ∀ op c, statusOf op copies = some c → ∃ c', statusOf op copies' = some c' ∧ Onward c c'

theorem Further.of_eq {copies copies' : List IndexRow} (h : ∀ op, statusOf op copies' = statusOf op copies) :
    Further copies copies' := fun op c hc => ⟨c, (h op).trans hc, .refl c⟩

theorem upsert_further (registry : Option ProvisionedAgent) (r : IndexRow) (copies : List IndexRow) :
    Further copies (upsert registry r copies) := by
  intro op c hc
  rw [upsert_status]
  split
  · rw [hc]
    dsimp only
    split
    · rename_i hlt
      exact ⟨_, rfl, .inr hlt⟩
    · exact ⟨c, rfl, .refl c⟩
  · exact ⟨c, hc, .refl c⟩

theorem resume_copies (i : Nat) (now : Int) (reply : Reply) (s : Stage) :
    (w.resume who hintTarget i now reply s).copies = w.copies := by
  cases s with
  | looked at_ due reg => cases reply <;> cases reg <;> rfl
  | asked at_ due => cases reply <;> rfl
  | describing p j => cases reply <;> rfl
  | writing p j k =>
    cases reply with
    | failed => rfl
    | ok item =>
      show (if _ then _ else _ : World).copies = _
      split <;> rfl
  | signing p j => cases reply <;> rfl
  | hinting p j => cases reply <;> rfl
  | closing p j ok => cases ok <;> rfl
  | over_ ending answer => rfl
  | crashed => rfl

/-- A copy in D1 stays where it is or goes further. -/
theorem copies_step (e : Event) (w : World) : Further w.copies (w.step who hintTarget e).2.copies := by
  cases e with
  | marked at_ => exact .of_eq fun op => statusOf_markAgentDeleted at_
  | delivered op status delivery description => exact .of_eq fun _ => statusOf_setDelivery op status delivery description
  | landed k =>
    unfold World.step
    dsimp only
    split
    · exact .of_eq fun _ => rfl
    · exact upsert_further _ _ _
  | looked i =>
    unfold World.step
    dsimp only
    split <;> exact .of_eq fun _ => rfl
  | resume i now reply =>
    unfold World.step
    dsimp only
    split
    · exact .of_eq fun _ => rfl
    · exact .of_eq fun op => by dsimp only; rw [resume_copies]
  | changed ctx c => exact .of_eq fun _ => rfl
  | provisioned reg => exact .of_eq fun _ => rfl
  | deleted at_ => exact .of_eq fun _ => rfl
  | pass now => exact .of_eq fun _ => rfl
  | crashed i => exact .of_eq fun _ => rfl

/-! ## What a step keeps -/

theorem Read.further {copies copies' : List IndexRow} {t : Tables} {j : Joined} (h : Read who copies t j)
    (hc : Further copies copies') : Read who copies' t j :=
  ⟨h.tenant, h.was, h.attempts, fun hi => (h.indexed hi).onward (hc _)⟩

theorem Ready.further {copies copies' : List IndexRow} {hints : List Hint} (more : List Hint) {writes writes' : List Write} {s : Stage}
    (h : s.Ready copies hints writes) (hc : Further copies copies')
    (hw : ∀ (k : Nat) (x : Write), writes[k]? = some x → ∃ x' : Write, writes'[k]? = some x' ∧ x'.row = x.row) : s.Ready copies' (hints ++ more) writes' := by
  cases s with
  | writing p j k =>
    obtain ⟨x, hx, hop, hstatus⟩ := h
    obtain ⟨x', hx', hrow⟩ := hw k x hx
    exact ⟨x', hx', hrow ▸ hop, hrow ▸ hstatus⟩
  | signing p j => exact ⟨h.1, h.2.onward (hc _)⟩
  | hinting p j =>
    obtain ⟨hlive, hin, hint, hh, hrest⟩ := h
    exact ⟨hlive, hin.onward (hc _), hint, List.mem_append_left _ hh, hrest⟩
  | closing p j ok =>
    obtain ⟨hlive, hin, hint, hh, hrest⟩ := h
    exact ⟨hlive, hin.onward (hc _), hint, List.mem_append_left _ hh, hrest⟩
  | _ => trivial

theorem Covers.later {t t' : Tables} {s : Stage} (h : s.Covers t) (hl : Later who t t') : s.Covers t' := by
  cases s with
  | describing p j | writing p j k | signing p j | hinting p j | closing p j ok =>
    exact fun x hx => (h x hx).imp_right fun ht => Tables.Tried.later ht hl
  | _ => trivial

theorem Sound.further {copies copies' : List IndexRow} {hints : List Hint} {t : Tables} (more : List Hint)
    (h : Sound who copies hints t) (hc : Further copies copies') : Sound who copies' (hints ++ more) t where
  keyed := h.keyed
  progress p hp := by
    obtain ⟨hwas, ha, hi⟩ := h.progress p hp
    exact ⟨hwas, ha, fun hx => (hi hx).onward (hc _)⟩
  published m hm := by
    obtain ⟨hwas, hin⟩ := h.published m hm
    exact ⟨hwas, hin.imp_left fun hx => hx.onward (hc _)⟩
  tried := h.tried
  gaveUp before x after hsplit hgave := by
    obtain ⟨hsix, hin⟩ := h.gaveUp before x after hsplit hgave
    exact ⟨hsix, hin.onward (hc _)⟩
  accepted x hx hres := by
    obtain ⟨hint, hh, hrest⟩ := h.accepted x hx hres
    exact ⟨hint, List.mem_append_left _ hh, hrest⟩
  handoff := h.handoff

/-- A step of D1 alone: the copies go further, and what has landed is there. -/
theorem valid_copies (h : Valid who w) {copies : List IndexRow} {writes : List Write} (hc : Further w.copies copies)
    (hcopied : ∀ op c, statusOf op copies = some c → w.tables.Was who op c)
    (hw : ∀ (k : Nat) (x : Write), w.writes[k]? = some x → ∃ x' : Write, writes[k]? = some x' ∧ x'.row = x.row)
    (hwrites : ∀ x ∈ writes, w.tables.Was who x.row.operationId x.row.status ∧
      (x.landed = true → InD1 copies x.row.operationId x.row.status)) : Valid who { w with copies, writes } where
  sound := by simpa using h.sound.further [] hc
  joined s hs j hj := (h.joined s hs j hj).further hc
  ready s hs := by simpa using Ready.further [] (h.ready s hs) hc hw
  covers := h.covers
  copied := hcopied
  writes := hwrites
  hints x hx := ⟨(h.hints x hx).1, (h.hints x hx).2.onward (hc _)⟩

/-- A pass goes on to where the loop leaves it. -/
theorem valid_put (h : Valid who w) {i : Nat} {due : List Joined} {r : Tables × Stage}
    (hr : Gone who w.copies w.hints w.writes due w.tables r) : Valid who (w.put i r) where
  sound := hr.sound
  joined s hs j hj := by
    rcases List.mem_or_eq_of_mem_set hs with hs | rfl
    · exact (h.joined s hs j hj).later hr.later
    · exact hr.joined j hj
  ready s hs := by
    rcases List.mem_or_eq_of_mem_set hs with hs | rfl
    · exact h.ready s hs
    · exact hr.ready
  covers s hs := by
    rcases List.mem_or_eq_of_mem_set hs with hs | rfl
    · exact Covers.later (h.covers s hs) hr.later
    · exact hr.covers
  copied op c hc := hr.later.was _ _ (h.copied op c hc)
  writes x hx := ⟨hr.later.was _ _ (h.writes x hx).1, (h.writes x hx).2⟩
  hints := h.hints

/-- A pass that only moves to another wait. -/
theorem valid_stage (h : Valid who w) {passes : List Stage} (hnew : ∀ s ∈ passes, s ∈ w.passes ∨
      (∀ j ∈ s.joined, Read who w.copies w.tables j) ∧ s.Ready w.copies w.hints w.writes ∧ s.Covers w.tables) :
    Valid who { w with passes } where
  sound := h.sound
  joined s hs j hj := (hnew s hs).elim (fun hold => h.joined s hold j hj) fun hs => hs.1 j hj
  ready s hs := (hnew s hs).elim (h.ready s) fun hs => hs.2.1
  covers s hs := (hnew s hs).elim (h.covers s) fun hs => hs.2.2
  copied := h.copied
  writes := h.writes
  hints := h.hints

/-- The store's writes take the holds further. -/
theorem valid_changed (h : Valid who w) (ctx : Ctx) (c : Change) :
    Valid who { w with tables := { w.tables with db := c.exec ctx w.tables.db } } := by
  obtain ⟨f, hf, hrows⟩ := change_rows ctx c h.sound.keyed
  have hold {r : ApprovalRow} (hr : r ∈ w.tables.db.approvals) : f r ∈ (c.exec ctx w.tables.db).approvals := by
    rcases hrows with hrows | ⟨new, -, -, -, hrows⟩ <;> rw [hrows]
    · exact List.mem_map_of_mem hr
    · exact List.mem_append_left _ (List.mem_map_of_mem hr)
  have hslot {r : ApprovalRow} (hr : r ∈ w.tables.db.approvals) : slot (f r) = slot r :=
    Prod.ext (hf r hr).tenant (hf r hr).operation
  have hlater : Later who w.tables { w.tables with db := c.exec ctx w.tables.db } := by
    refine ⟨fun op s ⟨r, hr, hkey, hon⟩ => ?_, [], (List.append_nil _).symm⟩
    exact ⟨f r, hold hr, (hslot hr).trans hkey, hon.trans (hf r hr).state⟩
  have hkeys : (w.tables.db.approvals.map f).map slot = w.tables.db.approvals.map slot := by
    rw [List.map_map]
    exact List.map_congr_left fun r hr => hslot hr
  have hmoved {r : ApprovalRow} (hr : r ∈ w.tables.db.approvals) (htenant : (f r).tenantId = who.tenantId) :
      (f r).handoff = lastHandoff (f r).operationId w.tables.tries := by
    rw [(hf r hr).handoff, (hf r hr).operation]
    exact h.sound.handoff r hr ((hf r hr).tenant.symm.trans htenant)
  refine ⟨⟨?_, fun p hp => ?_, fun m hm => ?_, fun x hx => hlater.was _ _ (h.sound.tried x hx), h.sound.gaveUp, h.sound.accepted,
    fun r hr htenant => ?_⟩, fun s hs j hj => (h.joined s hs j hj).later hlater, h.ready,
    fun s hs => Covers.later (h.covers s hs) hlater, fun op c hc => hlater.was _ _ (h.copied op c hc),
    fun x hx => ⟨hlater.was _ _ (h.writes x hx).1, (h.writes x hx).2⟩, h.hints⟩
  · show ((c.exec ctx w.tables.db).approvals.map slot).Nodup
    rcases hrows with hrows | ⟨new, -, -, hfresh, hrows⟩ <;> rw [hrows]
    · rw [hkeys]
      exact h.sound.keyed
    · rw [List.map_append, hkeys, List.map_singleton]
      refine List.nodup_append.2 ⟨h.sound.keyed, List.nodup_singleton _, ?_⟩
      rintro k hk _ hk' rfl
      obtain ⟨r, hr, heq⟩ := List.mem_map.1 hk
      exact hfresh r hr (heq.trans (List.mem_singleton.1 hk'))
  · obtain ⟨hwas, hrest⟩ := h.sound.progress p hp
    exact ⟨hlater.was _ _ hwas, hrest⟩
  · obtain ⟨hwas, hrest⟩ := h.sound.published m hm
    exact ⟨hlater.was _ _ hwas, hrest⟩
  · have hr : r ∈ (c.exec ctx w.tables.db).approvals := hr
    rcases hrows with hrows | ⟨new, -, hnone, hfresh, hrows⟩
    · obtain ⟨x, hx, rfl⟩ := List.mem_map.1 (hrows ▸ hr)
      exact hmoved hx htenant
    · rcases List.mem_append.1 (hrows ▸ hr) with hr | hr
      · obtain ⟨x, hx, rfl⟩ := List.mem_map.1 hr
        exact hmoved hx htenant
      · rw [List.mem_singleton.1 hr] at htenant ⊢
        -- a hold that was never in the table was never tried
        have huntried : w.tables.tries.filter (·.operationId == new.operationId) = [] := by
          refine List.filter_eq_nil_iff.2 fun x hx hop => ?_
          obtain ⟨r', hr', hkey, -⟩ := h.sound.tried x hx
          exact hfresh r' hr' (hkey.trans (Prod.ext htenant.symm (beq_iff_eq.1 hop)))
        rw [hnone, lastHandoff, huntried]
        rfl

/-- A pass reads the unpublished holds as they are. -/
theorem page_read (h : Valid who w) {now : Int} {j : Joined} (hj : j ∈ w.tables.due who now) :
    Read who w.copies w.tables j := by
  obtain ⟨r, hr, rfl⟩ := List.mem_map.1 (List.mem_filter.1 hj).1
  have hr : r ∈ Table.select (w.tables.unpublished who) w.tables.db.approvals :=
    (Table.orderBy_perm _ _).mem_iff.1 (List.mem_of_mem_take hr)
  obtain ⟨hrow, hun⟩ := List.mem_filter.1 hr
  have htenant : r.tenantId = who.tenantId := by
    unfold Tables.unpublished at hun
    simp only [Bool.and_eq_true, beq_iff_eq] at hun
    exact hun.1.1
  have hfresh {p : PublishRow} (hp : Joined.fresh ⟨r, w.tables.progressOf r.operationId⟩ = some p) :
      p ∈ w.tables.progress ∧ p.operationId = r.operationId ∧ p.forState = r.state := by
    obtain ⟨hone, hstate⟩ := Option.filter_eq_some_iff.1 hp
    exact ⟨Table.one_mem hone, beq_iff_eq.1 (Table.one_some (p := fun p : PublishRow => p.operationId == r.operationId) hone),
      of_decide_eq_true hstate⟩
  refine ⟨htenant, ⟨r, hrow, Prod.ext htenant rfl, .refl _⟩, ?_, fun hindexed => ?_⟩
  · unfold Joined.attempts
    cases hp : Joined.fresh ⟨r, w.tables.progressOf r.operationId⟩ with
    | none => exact Nat.zero_le _
    | some p =>
      obtain ⟨hmem, hop, hstate⟩ := hfresh hp
      have ha := (h.sound.progress p hmem).2.1
      rwa [hop, hstate] at ha
  · unfold Joined.indexed at hindexed
    cases hp : Joined.fresh ⟨r, w.tables.progressOf r.operationId⟩ with
    | none =>
      rw [hp] at hindexed
      cases hindexed
    | some p =>
      rw [hp] at hindexed
      obtain ⟨hmem, hop, hstate⟩ := hfresh hp
      have hi := (h.sound.progress p hmem).2.2 hindexed
      rwa [hop, hstate] at hi

theorem publish_stage (h : Valid who w) (now : Int) :
    (∀ j ∈ (publishApprovals who now w.tables).joined, Read who w.copies w.tables j) ∧
      (publishApprovals who now w.tables).Ready w.copies w.hints w.writes ∧ (publishApprovals who now w.tables).Covers w.tables := by
  unfold publishApprovals
  dsimp only
  split
  · exact ⟨fun j hj => (List.not_mem_nil hj).elim, trivial, trivial⟩
  · split
    · exact ⟨fun j hj => (List.not_mem_nil hj).elim, trivial, trivial⟩
    · exact ⟨fun j hj => page_read h hj, trivial, trivial⟩

section Resume

variable {i : Nat} {now : Int} {reply : Reply} {s : Stage}

/-- A pass that fails a try goes on with the rest. -/
theorem failedTry_gone {p : Pass} {j : Joined} {indexed hinting : Bool} (h : Valid who w)
    (hjoined : ∀ x ∈ j :: p.rest, Read who w.copies w.tables x) (hcovers : ∀ x ∈ p.due, x ∈ j :: p.rest ∨ w.tables.Tried x)
    (hin : indexed = true → InD1 w.copies j.row.operationId j.row.state) :
    Gone who w.copies w.hints w.writes p.due w.tables (p.failedTry who hintTarget j indexed hinting w.tables) := by
  obtain ⟨hs, hl⟩ := fail_sound p.now hinting h.sound
    (hjoined j List.mem_cons_self) rfl hin
  exact ended_gone (p := { p with failed := p.failed + 1 }) hs hl (fun x hx => hjoined x (List.mem_cons_of_mem _ hx)) hcovers
    (tried_fail _ _ _ _ _ _)

/-- A pass that ends a try well goes on with the rest. -/
theorem succeeded_gone {p : Pass} {j : Joined} {published : Nat} {sent : Bool} (h : Valid who w)
    (hjoined : ∀ x ∈ j :: p.rest, Read who w.copies w.tables x) (hcovers : ∀ x ∈ p.due, x ∈ j :: p.rest ∨ w.tables.Tried x)
    (hin : InD1 w.copies j.row.operationId j.row.state) (hlive : sent = true → p.live = true)
    (hhint : sent = true → ∃ h ∈ w.hints, h.operationId = j.row.operationId ∧ h.status = j.row.state) :
    Gone who w.copies w.hints w.writes p.due w.tables
      (p.go who hintTarget p.rest published (w.tables.succeed who j p.live sent)) := by
  obtain ⟨hs, hl⟩ := succeed_sound p.live sent h.sound (hjoined j List.mem_cons_self) hin hlive hhint
  exact ended_gone hs hl (fun x hx => hjoined x (List.mem_cons_of_mem _ hx)) hcovers (tried_succeed _ _ _ _)

theorem written_gone {p : Pass} {j : Joined} (h : Valid who w) (hjoined : ∀ x ∈ j :: p.rest, Read who w.copies w.tables x)
    (hcovers : ∀ x ∈ p.due, x ∈ j :: p.rest ∨ w.tables.Tried x) (hin : InD1 w.copies j.row.operationId j.row.state) :
    Gone who w.copies w.hints w.writes p.due w.tables (p.written who hintTarget j w.tables) := by
  unfold Pass.written
  cases htarget : p.target hintTarget with
  | none => exact succeeded_gone h hjoined hcovers hin (fun h => nomatch h) fun h => nomatch h
  | some a =>
    exact ⟨h.sound, .refl _, hjoined, ⟨live_of_target htarget, hin⟩, hcovers, fun answer heq => by cases heq⟩

/-- A pass that ends without the loop. -/
theorem over_gone {ending : Ending} {answer : Answer} {due : List Joined} {t : Tables} (hs : Sound who w.copies w.hints t)
    (hl : Later who w.tables t) (hending : ending ≠ .through) :
    Gone who w.copies w.hints w.writes due w.tables (t, .over_ ending answer) :=
  ⟨hs, hl, fun j hj => (List.not_mem_nil hj).elim, trivial, trivial, fun answer heq => by cases heq; exact absurd rfl hending⟩

/-- What a resumed pass does: it ends a try or itself, or moves to another wait. -/
theorem resume_cases (hintTarget : ProvisionedAgent → Option String) (now : Int) (reply : Reply) (h : Valid who w) (hat : w.passes[i]? = some s) :
    (∃ r, w.resume who hintTarget i now reply s = w.put i r ∧ Gone who w.copies w.hints w.writes s.due w.tables r) ∨
    Valid who (w.resume who hintTarget i now reply s) ∧ (w.resume who hintTarget i now reply s).tables = w.tables ∧
      ∀ answer, (w.resume who hintTarget i now reply s).passes[i]? = some (.over_ .through answer) → s = .over_ .through answer := by
  have hmem := List.mem_of_getElem? hat
  have hjoined := h.joined s hmem
  have hready := h.ready s hmem
  have hcovers := h.covers s hmem
  have hsame : Valid who w ∧ w.tables = w.tables ∧
      ∀ answer, w.passes[i]? = some (.over_ .through answer) → s = .over_ .through answer :=
    ⟨h, rfl, fun answer heq => Option.some.inj (hat.symm.trans heq)⟩
  have hmoved {s' : Stage} {answer : Answer} (hs' : s' ≠ .over_ .through answer) :
      (w.passes.set i s')[i]? ≠ some (.over_ .through answer) := by
    rw [List.getElem?_set_self (List.getElem?_eq_some_iff.1 hat).1]
    exact fun heq => hs' (Option.some.inj heq)
  cases s with
  | asked at_ due =>
    cases reply with
    | ok item => exact .inr hsame
    | failed => exact .inl ⟨_, rfl, over_gone h.sound (.refl _) (by decide)⟩
  | looked at_ due reg =>
    cases reply with
    | failed => cases reg <;> exact .inl ⟨_, rfl, over_gone h.sound (.refl _) (by decide)⟩
    | ok item =>
      cases reg with
      | none =>
        obtain ⟨hs, hl⟩ := unprovisioned_sound h.sound hjoined
        exact .inl ⟨_, rfl, over_gone hs hl (by decide)⟩
      | some reg => exact .inl ⟨_, rfl, go_sound (p := ⟨at_, due, reg, [], 0, 0⟩) 0 h.sound hjoined fun j hj => .inl hj⟩
  | describing p j =>
    cases reply with
    | failed => exact .inl ⟨_, rfl, failedTry_gone h hjoined hcovers fun h => nomatch h⟩
    | ok item =>
      have hj := hjoined j List.mem_cons_self
      have hold : Valid who { w with copies := w.copies, writes := w.writes ++ [⟨p.indexRow j item now, false⟩] } := valid_copies h
        (.of_eq fun _ => rfl) h.copied
        (fun k x hx => ⟨x, (List.getElem?_append_left (List.getElem?_eq_some_iff.1 hx).1).trans hx, rfl⟩) fun x hx => by
          rcases List.mem_append.1 hx with hx | hx
          · exact h.writes x hx
          · rw [List.mem_singleton.1 hx]
            exact ⟨hj.was, fun h => nomatch h⟩
      refine .inr ⟨valid_stage hold fun s' hs' => ?_, rfl, fun answer heq => absurd heq (hmoved (by simp))⟩
      rcases List.mem_or_eq_of_mem_set hs' with hs' | rfl
      · exact .inl hs'
      · exact .inr ⟨hjoined, ⟨_, List.getElem?_concat_length, rfl, rfl⟩, hcovers⟩
  | writing p j k =>
    cases reply with
    | failed => exact .inl ⟨_, rfl, failedTry_gone h hjoined hcovers fun h => nomatch h⟩
    | ok item =>
      obtain ⟨x, hx, hop, hstatus⟩ := hready
      cases hlanded : x.landed with
      | false =>
        have hwait : w.resume who hintTarget i now (.ok item) (.writing p j k) = w := by
          simp [World.resume, hx, hlanded]
        rw [hwait]
        exact .inr hsame
      | true =>
        have hin := (h.writes x (List.mem_of_getElem? hx)).2 hlanded
        rw [hop, hstatus] at hin
        exact .inl ⟨p.written who hintTarget j w.tables, by simp [World.resume, hx, hlanded],
          written_gone h hjoined hcovers hin⟩
  | signing p j =>
    cases reply with
    | failed => exact .inl ⟨_, rfl, failedTry_gone h hjoined hcovers fun _ => hready.2⟩
    | ok item =>
      have hnew : Valid who { w with hints := w.hints ++ [⟨j.row.operationId, j.row.state, p.reg⟩] } :=
        { sound := h.sound.further _ (.of_eq fun _ => rfl)
          joined := h.joined
          ready := fun s hs => Ready.further _ (h.ready s hs) (.of_eq fun _ => rfl) fun k x hx => ⟨x, hx, rfl⟩
          covers := h.covers
          copied := h.copied
          writes := h.writes
          hints := fun x hx => by
            rcases List.mem_append.1 hx with hx | hx
            · exact h.hints x hx
            · rw [List.mem_singleton.1 hx]
              exact ⟨Option.isNone_iff_eq_none.1 hready.1, hready.2⟩ }
      refine .inr ⟨valid_stage hnew fun s' hs' => ?_, rfl, fun answer heq => absurd heq (hmoved (by simp))⟩
      rcases List.mem_or_eq_of_mem_set hs' with hs' | rfl
      · exact .inl hs'
      · exact .inr ⟨hjoined, ⟨hready.1, hready.2, _, List.mem_append_right _ (List.mem_singleton_self _), rfl, rfl⟩, hcovers⟩
  | hinting p j =>
    cases reply with
    | failed => exact .inl ⟨_, rfl, failedTry_gone h hjoined hcovers fun _ => hready.2.1⟩
    | ok answer =>
      refine .inr ⟨valid_stage h fun s' hs' => ?_, rfl, fun answer heq => absurd heq (hmoved (by simp))⟩
      rcases List.mem_or_eq_of_mem_set hs' with hs' | rfl
      · exact .inl hs'
      · exact .inr ⟨hjoined, hready, hcovers⟩
  | closing p j ok =>
    cases ok with
    | true => exact .inl ⟨_, rfl, succeeded_gone h hjoined hcovers hready.2.1 (fun _ => hready.1) fun _ => hready.2.2⟩
    | false => exact .inl ⟨_, rfl, failedTry_gone h hjoined hcovers fun _ => hready.2.1⟩
  | over_ ending answer => exact .inr hsame
  | crashed => exact .inr hsame

end Resume

theorem valid_step (e : Event) (w : World) (h : Valid who w) : Valid who (w.step who hintTarget e).2 := by
  cases e with
  | changed ctx c => exact valid_changed h ctx c
  | provisioned reg => exact ⟨h.sound, h.joined, h.ready, h.covers, h.copied, h.writes, h.hints⟩
  | deleted at_ => exact ⟨h.sound, h.joined, h.ready, h.covers, h.copied, h.writes, h.hints⟩
  | marked at_ =>
    refine valid_copies h (.of_eq fun op => statusOf_markAgentDeleted at_) (fun op c hc => h.copied op c ?_) (fun k x hx => ⟨x, hx, rfl⟩)
      fun x hx => ⟨(h.writes x hx).1, fun hl => ((h.writes x hx).2 hl).onward (Further.of_eq (fun op => statusOf_markAgentDeleted at_) _)⟩
    rwa [statusOf_markAgentDeleted] at hc
  | delivered op status delivery description =>
    have hsame (x : String) : statusOf x (setDelivery op status delivery description w.copies) = statusOf x w.copies :=
      statusOf_setDelivery op status delivery description
    refine valid_copies h (.of_eq hsame) (fun x c hc => h.copied x c ?_) (fun k x hx => ⟨x, hx, rfl⟩)
      fun x hx => ⟨(h.writes x hx).1, fun hl => ((h.writes x hx).2 hl).onward (Further.of_eq hsame _)⟩
    rwa [hsame] at hc
  | landed k =>
    unfold World.step
    dsimp only
    split
    · exact h
    · rename_i x hx
      have hmem := List.mem_of_getElem? hx
      have hfurther := upsert_further w.registry x.row w.copies
      refine valid_copies h hfurther (fun op c hc => ?_) (fun k' y hy => ?_) fun y hy => ?_
      · rw [upsert_status] at hc
        split at hc
        · rename_i hop
          have hwritten := hop ▸ (h.writes x hmem).1
          split at hc
          · cases hc
            exact hwritten
          · rename_i s hs
            cases hc
            split
            · exact hwritten
            · exact h.copied op s hs
        · exact h.copied op c hc
      · by_cases hk : k = k'
        · subst hk
          rw [hx] at hy
          cases hy
          exact ⟨_, List.getElem?_set_self (List.getElem?_eq_some_iff.1 hx).1, rfl⟩
        · exact ⟨y, (List.getElem?_set_ne hk).trans hy, rfl⟩
      · rcases List.mem_or_eq_of_mem_set hy with hy | rfl
        · exact ⟨(h.writes y hy).1, fun hl => ((h.writes y hy).2 hl).onward (hfurther _)⟩
        · refine ⟨(h.writes x hmem).1, fun _ => ?_⟩
          show InD1 (upsert w.registry x.row w.copies) x.row.operationId x.row.status
          unfold InD1
          rw [upsert_status, if_pos rfl]
          cases statusOf x.row.operationId w.copies with
          | none => exact ⟨_, rfl, Nat.le_refl _⟩
          | some c =>
            refine ⟨_, rfl, ?_⟩
            split
            · exact Nat.le_refl _
            · omega
  | pass now =>
    refine valid_stage h fun s hs => ?_
    rcases List.mem_append.1 hs with hs | hs
    · exact .inl hs
    · rw [List.mem_singleton.1 hs]
      exact .inr (publish_stage h now)
  | looked i =>
    unfold World.step
    dsimp only
    split
    · rename_i at_ due hat
      refine valid_stage h fun s hs => ?_
      rcases List.mem_or_eq_of_mem_set hs with hs | rfl
      · exact .inl hs
      · exact .inr ⟨h.joined (.asked at_ due) (List.mem_of_getElem? hat), trivial, trivial⟩
    · exact h
  | crashed i =>
    refine valid_stage h fun s hs => ?_
    rcases List.mem_or_eq_of_mem_set hs with hs | rfl
    · exact .inl hs
    · exact .inr ⟨fun j hj => (List.not_mem_nil hj).elim, trivial, trivial⟩
  | resume i now reply =>
    unfold World.step
    dsimp only
    split
    · exact h
    · rename_i s hat
      rcases resume_cases hintTarget now reply h hat with ⟨r, hr, hgone⟩ | ⟨hvalid, -⟩
      · rw [hr]
        exact valid_put h hgone
      · exact hvalid

/-- A pass that ends through the loop names the wake of the tables it leaves, and has tried each hold it found due. -/
theorem through_step (h : Valid who w) {e : Event} {answer : Answer}
    (hanswer : (w.step who hintTarget e).1 = some (.over_ .through answer)) :
    (∃ now, answer.nextAt = (w.step who hintTarget e).2.tables.nextAt who now) ∧
    ∀ i now reply s, e = .resume i now reply → w.passes[i]? = some s → ∀ j ∈ s.due, (w.step who hintTarget e).2.tables.Tried j := by
  cases e with
  | pass now =>
    refine ⟨?_, fun i now reply s he => by cases he⟩
    have hstage : publishApprovals who now w.tables = .over_ .through answer := Option.some.inj hanswer
    unfold publishApprovals at hstage
    dsimp only at hstage
    split at hstage
    · cases hstage
    · split at hstage
      · cases hstage
        exact ⟨now, rfl⟩
      · cases hstage
  | resume i now reply =>
    unfold World.step at hanswer ⊢
    dsimp only at hanswer ⊢
    cases hat : w.passes[i]? with
    | none =>
      rw [hat] at hanswer
      cases hanswer
    | some s =>
      rw [hat] at hanswer
      dsimp only at hanswer ⊢
      split at hanswer
      · cases hanswer
      rename_i hmoved
      rcases resume_cases hintTarget now reply h hat with ⟨r, hr, hgone⟩ | ⟨-, -, hsame⟩
      · rw [hr] at hanswer ⊢
        have hplace : (w.put i r).passes[i]? = some r.2 := List.getElem?_set_self (List.getElem?_eq_some_iff.1 hat).1
        obtain ⟨hnext, htried⟩ := hgone.through answer (Option.some.inj (hplace.symm.trans hanswer))
        refine ⟨hnext, fun i' now' reply' s' he hs' => ?_⟩
        cases he
        rw [hat] at hs'
        cases hs'
        exact htried
      · exact absurd (hanswer.trans (congrArg some (hsame answer hanswer).symm)) hmoved
  | looked i =>
    unfold World.step at hanswer
    dsimp only at hanswer
    split at hanswer <;> cases hanswer
  | landed k =>
    unfold World.step at hanswer
    dsimp only at hanswer
    split at hanswer <;> cases hanswer
  | changed ctx c => cases hanswer
  | provisioned reg => cases hanswer
  | deleted at_ => cases hanswer
  | marked at_ => cases hanswer
  | delivered op status delivery description => cases hanswer
  | crashed i => cases hanswer

/-! ## The wake -/

/-- The wake a pass names is the time of an unpublished hold, the soonest. -/
theorem nextAt_spec (who : Agent) (now : Int) (t : Tables) :
    (t.nextAt who now = none ↔ t.unpublishedRows who = []) ∧
    ∀ n, t.nextAt who now = some n → (∃ r ∈ t.unpublishedRows who, n = max (t.nextTry r) now) ∧
      ∀ r ∈ t.unpublishedRows who, n ≤ max (t.nextTry r) now := by
  unfold Tables.nextAt
  constructor
  · rw [Option.map_eq_none_iff, List.min?_eq_none_iff, List.map_eq_nil_iff]
  · intro n hn
    obtain ⟨m, hm, rfl⟩ := Option.map_eq_some_iff.1 hn
    obtain ⟨hmem, hle⟩ := List.min?_eq_some_iff.1 hm
    obtain ⟨r, hr, rfl⟩ := List.mem_map.1 hmem
    refine ⟨⟨r, hr, rfl⟩, fun r' hr' => ?_⟩
    have hsoonest := hle _ (List.mem_map_of_mem hr')
    omega

/-- Fifty unpublished holds at most are all on the page: each is due once its time has come. -/
theorem due_all {now : Int} {t : Tables} (hfew : (t.unpublishedRows who).length ≤ 50) {r : ApprovalRow}
    (hr : r ∈ t.unpublishedRows who) (hnow : t.nextTry r ≤ now) : ∃ j ∈ t.due who now, j.row = r := by
  have hsorted : r ∈ Table.orderBy (fun r : ApprovalRow => r.createdAt) (t.unpublishedRows who) :=
    (Table.orderBy_perm _ _).mem_iff.2 hr
  have hlength : (Table.orderBy (fun r : ApprovalRow => r.createdAt) (t.unpublishedRows who)).length ≤ 50 := by
    rw [(Table.orderBy_perm _ _).length_eq]
    exact hfew
  refine ⟨⟨r, t.progressOf r.operationId⟩, List.mem_filter.2 ⟨?_, decide_eq_true hnow⟩, rfl⟩
  unfold Tables.page
  rw [List.take_of_length_le hlength]
  exact List.mem_map.2 ⟨r, hsorted, rfl⟩

end World

/-! ## Whole histories -/

def World.run (who : Agent) (hintTarget : ProvisionedAgent → Option String) (events : List Event) : World :=
  History.final (World.step who hintTarget) events World.empty

/-- A held call of a provisioned agent, and a pass that has its copy in D1. -/
def written : List Event :=
  [.provisioned ⟨"https://raft", "s1", "r1", none⟩, .changed ⟨0, fun _ => ""⟩ (.requireApproval ⟨"t", "op1", "a", "k", "mail", "send", .null, none⟩),
    .pass 0, .looked 0, .resume 0 0 (.ok .null), .resume 0 0 (.ok .null), .landed 0, .resume 0 0 (.ok .null)]

/-- The agent is deleted before that pass sends its hint. -/
def deletedMeanwhile : List Event := written ++ [.deleted 1, .resume 0 2 (.ok .null)]

/-- A second pass sends its hint after the first one's, and Raft takes it. -/
def hintedAgain : List Event :=
  written ++ [.pass 1, .looked 1, .resume 1 1 (.ok .null), .resume 1 1 (.ok .null), .landed 1, .resume 1 1 (.ok .null),
    .resume 0 2 (.ok .null), .resume 1 2 (.ok .null), .resume 1 3 (.ok (.bool true)), .resume 1 3 (.ok .null)]

def handoffs (w : World) : List (Option ApprovalHandoff) := w.tables.db.approvals.map (·.handoff)

end Antiproton.Publish
