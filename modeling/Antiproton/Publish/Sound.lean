import Antiproton.Publish.Pass

/-!
# Antiproton.Publish.Sound

What a pass's writes keep: each state it works on is one the hold was in, what it has marked published is in D1, and the
hand-off recorded is that of the last try at the pending state.

* `change_rows`: a store's write leaves a hold where it is, or takes it further.
* `go_sound`: the loop keeps `Sound`, and each try it ends is logged.
-/

namespace Antiproton.Publish

open Js

/-! ## The rows of `approvals` -/

/-- A row after a store's write: the same hold, where it was or further along. -/
structure Moved (r r' : ApprovalRow) : Prop where
  tenant : r'.tenantId = r.tenantId
  operation : r'.operationId = r.operationId
  handoff : r'.handoff = r.handoff
  state : Onward r.state r'.state

def slot (r : ApprovalRow) : String × String := (r.tenantId, r.operationId)

theorem Moved.refl (r : ApprovalRow) : Moved r r := ⟨rfl, rfl, rfl, .refl _⟩

theorem approvalKey_slot (t o : String) (r : ApprovalRow) : approvalKey t o r = true ↔ slot r = (t, o) := by
  simp [approvalKey, slot]

/-- A write of the one row a key finds. -/
theorem update_rows {t o : String} {db : Db} (hkeyed : Table.Unique slot db.approvals) {r : ApprovalRow}
    (hr : Table.one (approvalKey t o) db.approvals = some r) {g : ApprovalRow → ApprovalRow} (hg : Moved r (g r)) :
    ∃ f : ApprovalRow → ApprovalRow, (∀ x ∈ db.approvals, Moved x (f x)) ∧
      Table.update (approvalKey t o) g db.approvals = db.approvals.map f := by
  refine ⟨fun x => if approvalKey t o x then g x else x, fun x hx => ?_, rfl⟩
  dsimp only
  split
  · rename_i hkey
    have hsame : x = r := List.inj_on_of_nodup_map hkeyed hx (Table.one_mem hr)
      (((approvalKey_slot t o x).1 hkey).trans ((approvalKey_slot t o r).1 (Table.one_some hr)).symm)
    rw [hsame]
    exact hg
  · exact .refl x

/-- A store's write leaves each hold where it is or takes it further, and may add a pending one. -/
theorem change_rows (ctx : Ctx) (c : Change) {db : Db} (hkeyed : Table.Unique slot db.approvals) :
    ∃ f : ApprovalRow → ApprovalRow, (∀ r ∈ db.approvals, Moved r (f r)) ∧
      ((c.exec ctx db).approvals = db.approvals.map f ∨
        ∃ new : ApprovalRow, new.state = .pending ∧ new.handoff = none ∧ (∀ r ∈ db.approvals, slot r ≠ slot new) ∧
          (c.exec ctx db).approvals = db.approvals.map f ++ [new]) := by
  have hsame : ∃ f : ApprovalRow → ApprovalRow, (∀ r ∈ db.approvals, Moved r (f r)) ∧ db.approvals = db.approvals.map f :=
    ⟨fun r => r, fun r _ => .refl r, (List.map_id' _).symm⟩
  have hinsert (a : HoldRequest) : ∃ f : ApprovalRow → ApprovalRow, (∀ r ∈ db.approvals, Moved r (f r)) ∧
      (Table.insertOrIgnore (approvalKey a.tenantId a.operationId) (a.row ctx.now) db.approvals = db.approvals.map f ∨
        ∃ new : ApprovalRow, new.state = .pending ∧ new.handoff = none ∧ (∀ r ∈ db.approvals, slot r ≠ slot new) ∧
          Table.insertOrIgnore (approvalKey a.tenantId a.operationId) (a.row ctx.now) db.approvals =
            db.approvals.map f ++ [new]) := by
    unfold Table.insertOrIgnore
    split
    · obtain ⟨f, hf, heq⟩ := hsame
      exact ⟨f, hf, .inl heq⟩
    · rename_i hnone
      refine ⟨fun r => r, fun r _ => .refl r, .inr ⟨a.row ctx.now, rfl, rfl, fun r hr heq => hnone ?_, ?_⟩⟩
      · exact List.any_eq_true.2 ⟨r, hr, (approvalKey_slot _ _ r).2 heq⟩
      · rw [List.map_id']
  cases c with
  | requireApproval a => exact hinsert a
  | holdApproval a same =>
    unfold Change.exec DurableObject.holdApproval
    dsimp only
    split
    · obtain ⟨f, hf, heq⟩ := hsame
      exact ⟨f, hf, .inl heq⟩
    · exact hinsert a
  | decideApproval t o decision approver by_ notice =>
    unfold Change.exec DurableObject.decideApproval
    dsimp only
    split
    · obtain ⟨f, hf, heq⟩ := hsame
      exact ⟨f, hf, .inl heq⟩
    · rename_i r hr
      split
      · obtain ⟨f, hf, heq⟩ := hsame
        exact ⟨f, hf, .inl heq⟩
      · rename_i hproblem
        rw [appendTrace_approvals]
        have hpending := decisionProblem_pending hproblem
        have hstate : Onward r.state decision.state := by
          rw [hpending]
          exact .inr (by cases decision <;> decide)
        obtain ⟨f, hf, heq⟩ := update_rows hkeyed hr
          (g := fun r => { decided decision approver ctx.now by_ r with notice := notice }) ⟨rfl, rfl, rfl, hstate⟩
        exact ⟨f, hf, .inl heq⟩
  | claimApprovalRun t o at_ =>
    unfold Change.exec DurableObject.claimApprovalRun
    dsimp only
    split
    · obtain ⟨f, hf, heq⟩ := hsame
      exact ⟨f, hf, .inl heq⟩
    · rename_i r hr
      split
      · obtain ⟨f, hf, heq⟩ := hsame
        exact ⟨f, hf, .inl heq⟩
      · obtain ⟨f, hf, heq⟩ := update_rows hkeyed hr (g := fun r => { r with runAt := some at_ }) ⟨rfl, rfl, rfl, .refl _⟩
        exact ⟨f, hf, .inl heq⟩
  | finishApproval t o state summary notice =>
    unfold Change.exec DurableObject.finishApproval
    dsimp only
    split
    · obtain ⟨f, hf, heq⟩ := hsame
      exact ⟨f, hf, .inl heq⟩
    · rename_i r hr
      split
      · obtain ⟨f, hf, heq⟩ := hsame
        exact ⟨f, hf, .inl heq⟩
      · rename_i happroved
        have hstate : Onward r.state state.state := by
          rw [Decidable.not_not.1 happroved]
          exact .inr (by cases state <;> decide)
        obtain ⟨f, hf, heq⟩ := update_rows hkeyed hr
          (g := fun r => { r with state := state.state, outcome := some summary, notice := some notice }) ⟨rfl, rfl, rfl, hstate⟩
        exact ⟨f, hf, .inl heq⟩
  | recordApprovalDelivery t o report =>
    unfold Change.exec DurableObject.recordApprovalDelivery
    dsimp only
    split
    · obtain ⟨f, hf, heq⟩ := hsame
      exact ⟨f, hf, .inl heq⟩
    · rename_i r hr
      split
      · obtain ⟨f, hf, heq⟩ := hsame
        exact ⟨f, hf, .inl heq⟩
      · obtain ⟨f, hf, heq⟩ := hsame
        exact ⟨f, hf, .inl heq⟩
      · obtain ⟨f, hf, heq⟩ := update_rows hkeyed hr
          (g := fun r => { r with deliveryOutcome := some report.outcome, deliveryAt := some report.at_ }) ⟨rfl, rfl, rfl, .refl _⟩
        exact ⟨f, hf, .inl heq⟩

/-! ## What the tables say -/

section Tables

variable (who : Agent)

/-- The hold is in this state, or has left it. -/
def Tables.Was (t : Tables) (op : String) (s : ApprovalState) : Prop :=
  ∃ r ∈ t.db.approvals, slot r = (who.tenantId, op) ∧ Onward s r.state

/-- D1's copy is as far along as the state. -/
def InD1 (copies : List IndexRow) (op : String) (s : ApprovalState) : Prop :=
  ∃ c, statusOf op copies = some c ∧ STATE_RANK s ≤ STATE_RANK c

/-- A failed try at a hold's state. -/
def Try.failedAt (op : String) (s : ApprovalState) (x : Try) : Bool :=
  x.failed && x.operationId == op && decide (x.state = s)

/-- How often a hold's state was tried and failed. -/
def Tables.failures (t : Tables) (op : String) (s : ApprovalState) : Nat := t.tries.countP (Try.failedAt op s)

/-- The hand-off of the last try at a hold's pending state that has one. -/
def lastHandoff (op : String) (tries : List Try) : Option ApprovalHandoff :=
  ((tries.filter (·.operationId == op)).filterMap (·.handoff)).getLast?

/-- What a pass read of a hold, against the tables. -/
structure Read (copies : List IndexRow) (t : Tables) (j : Joined) : Prop where
  tenant : j.row.tenantId = who.tenantId
  was : t.Was who j.row.operationId j.row.state
  attempts : j.attempts ≤ t.failures j.row.operationId j.row.state
  indexed : j.indexed = true → InD1 copies j.row.operationId j.row.state

/-- The tables of the agent's object, against the copies in D1 and the hints sent. -/
structure Sound (copies : List IndexRow) (hints : List Hint) (t : Tables) : Prop where
  keyed : Table.Unique slot t.db.approvals
  progress : ∀ p ∈ t.progress, t.Was who p.operationId p.forState ∧ p.attempts ≤ t.failures p.operationId p.forState ∧
    (p.indexed = true → InD1 copies p.operationId p.forState)
  published : ∀ m ∈ t.published, t.Was who m.operationId m.state ∧ (InD1 copies m.operationId m.state ∨
    ∃ x ∈ t.tries, x.operationId = m.operationId ∧ x.state = m.state ∧ x.result = .unprovisioned)
  tried : ∀ x ∈ t.tries, t.Was who x.operationId x.state
  gaveUp : ∀ before x after, t.tries = before ++ x :: after → x.gaveUp = true →
    HINT_ATTEMPTS ≤ (before ++ [x]).countP (Try.failedAt x.operationId x.state) ∧ InD1 copies x.operationId x.state
  accepted : ∀ x ∈ t.tries, x.result = .accepted → ∃ h ∈ hints, h.operationId = x.operationId ∧ h.status = x.state
  handoff : ∀ r ∈ t.db.approvals, r.tenantId = who.tenantId → r.handoff = lastHandoff r.operationId t.tries

/-- The tables later on: no hold is behind where it was, and the tries are kept. -/
structure Later (t t' : Tables) : Prop where
  was : ∀ op s, t.Was who op s → t'.Was who op s
  tries : ∃ more, t'.tries = t.tries ++ more

variable {who} {copies copies' : List IndexRow} {hints : List Hint} {t t' t'' : Tables} {j : Joined}

theorem Later.refl (t : Tables) : Later who t t := ⟨fun _ _ h => h, [], (List.append_nil _).symm⟩

theorem Later.trans (h : Later who t t') (h' : Later who t' t'') : Later who t t'' := by
  obtain ⟨more, hmore⟩ := h.tries
  obtain ⟨more', hmore'⟩ := h'.tries
  exact ⟨fun op s hs => h'.was op s (h.was op s hs), more ++ more', by rw [hmore', hmore, List.append_assoc]⟩

theorem Later.failures (h : Later who t t') (op : String) (s : ApprovalState) : t.failures op s ≤ t'.failures op s := by
  obtain ⟨more, hmore⟩ := h.tries
  rw [Tables.failures, Tables.failures, hmore, List.countP_append]
  omega

theorem Later.mem (h : Later who t t') {x : Try} (hx : x ∈ t.tries) : x ∈ t'.tries := by
  obtain ⟨more, hmore⟩ := h.tries
  rw [hmore]
  exact List.mem_append_left _ hx

theorem Read.later (h : Read who copies t j) (hl : Later who t t') : Read who copies t' j :=
  ⟨h.tenant, hl.was _ _ h.was, Nat.le_trans h.attempts (hl.failures _ _), h.indexed⟩

/-- A write that is further along in D1 leaves what was there in D1. -/
theorem InD1.onward {op : String} {s : ApprovalState} (h : InD1 copies op s)
    (hc : ∀ c, statusOf op copies = some c → ∃ c', statusOf op copies' = some c' ∧ Onward c c') : InD1 copies' op s := by
  obtain ⟨c, hstatus, hrank⟩ := h
  obtain ⟨c', hstatus', hon⟩ := hc c hstatus
  exact ⟨c', hstatus', Nat.le_trans hrank hon.rank⟩

/-! ## A try that ends -/

/-- The hand-off of a try, on its hold's row. -/
def handedOff (tenantId op : String) (v : Option ApprovalHandoff) (rows : List ApprovalRow) : List ApprovalRow :=
  rows.map fun r => if slot r = (tenantId, op) then { r with handoff := v.or r.handoff } else r

theorem lastHandoff_concat (op : String) (tries : List Try) (x : Try) :
    lastHandoff op (tries ++ [x]) = (if x.operationId = op then x.handoff else none).or (lastHandoff op tries) := by
  unfold lastHandoff
  rw [List.filter_append, List.filterMap_append, List.getLast?_append]
  by_cases hop : x.operationId = op
  · rw [if_pos hop]
    cases hx : x.handoff <;> simp [hop, hx]
  · simp [hop]

/-- What a try that ended leaves: the try logged, and its hand-off, mark and back-off those of its hold's state. -/
theorem ended_sound (h : Sound who copies hints t) (hj : Read who copies t j) {x : Try}
    (hop : x.operationId = j.row.operationId) (hstate : x.state = j.row.state) (htries : t'.tries = t.tries ++ [x])
    (hrows : t'.db.approvals = handedOff who.tenantId j.row.operationId x.handoff t.db.approvals)
    (hpublished : ∀ m ∈ t'.published, m ∈ t.published ∨ m = ⟨j.row.operationId, j.row.state⟩ ∧
      (InD1 copies j.row.operationId j.row.state ∨ x.result = .unprovisioned))
    (hprogress : ∀ p ∈ t'.progress, p ∈ t.progress ∨ p.operationId = j.row.operationId ∧ p.forState = j.row.state ∧
      x.failed = true ∧ p.attempts = j.attempts + 1 ∧ (p.indexed = true → InD1 copies j.row.operationId j.row.state))
    (hgave : x.gaveUp = true → x.failed = true ∧ HINT_ATTEMPTS ≤ j.attempts + 1 ∧ InD1 copies j.row.operationId j.row.state)
    (haccepted : x.result = .accepted → ∃ h ∈ hints, h.operationId = x.operationId ∧ h.status = x.state) :
    Sound who copies hints t' ∧ Later who t t' := by
  have hslot : ∀ r, slot (if slot r = (who.tenantId, j.row.operationId) then { r with handoff := x.handoff.or r.handoff } else r)
      = slot r := by
    intro r
    split <;> rfl
  have hwas : ∀ op s, t.Was who op s → t'.Was who op s := by
    rintro op s ⟨r, hr, hkey, hon⟩
    refine ⟨_, hrows ▸ List.mem_map_of_mem hr, (hslot r).trans hkey, ?_⟩
    split <;> exact hon
  have hlater : Later who t t' := ⟨hwas, [x], htries⟩
  have hcount : x.failed = true → j.attempts + 1 ≤ t'.failures j.row.operationId j.row.state := by
    intro hfailed
    have hx : Try.failedAt j.row.operationId j.row.state x = true := by simp [Try.failedAt, hfailed, hop, hstate]
    have hold := hj.attempts
    rw [Tables.failures] at hold
    rw [Tables.failures, htries, List.countP_append, List.countP_singleton, if_pos hx]
    omega
  refine ⟨⟨?_, fun p hp => ?_, fun m hm => ?_, fun y hy => ?_, fun before y after hsplit hgaveUp => ?_, fun y hy hres => ?_,
    fun r hr htenant => ?_⟩, hlater⟩
  · have hkeys : t'.db.approvals.map slot = t.db.approvals.map slot := by
      rw [hrows, handedOff, List.map_map]
      exact List.map_congr_left fun r _ => hslot r
    rw [Table.Unique, hkeys]
    exact h.keyed
  · rcases hprogress p hp with hold | ⟨hpop, hpstate, hfailed, hattempts, hindexed⟩
    · obtain ⟨hw, ha, hi⟩ := h.progress p hold
      exact ⟨hwas _ _ hw, Nat.le_trans ha (hlater.failures _ _), hi⟩
    · rw [hpop, hpstate, hattempts]
      exact ⟨hwas _ _ hj.was, hcount hfailed, hindexed⟩
  · rcases hpublished m hm with hold | ⟨rfl, hin⟩
    · obtain ⟨hw, hin⟩ := h.published m hold
      exact ⟨hwas _ _ hw, hin.imp_right (Exists.imp fun y => And.imp_left hlater.mem)⟩
    · refine ⟨hwas _ _ hj.was, hin.imp_right fun hres => ⟨x, ?_, hop, hstate, hres⟩⟩
      rw [htries]
      exact List.mem_append_right _ (List.mem_singleton_self x)
  · rw [htries] at hy
    rcases List.mem_append.1 hy with hy | hy
    · exact hwas _ _ (h.tried y hy)
    · rw [List.mem_singleton.1 hy, hop, hstate]
      exact hwas _ _ hj.was
  · rw [htries] at hsplit
    rcases List.append_eq_append_iff.1 hsplit with ⟨mid, hbefore, hmid⟩ | ⟨mid, hbefore, hmid⟩
    · cases mid with
      | nil =>
        rw [List.nil_append, List.cons.injEq] at hmid
        obtain ⟨rfl, -⟩ := hmid
        obtain ⟨hfailed, hsix, hin⟩ := hgave hgaveUp
        rw [hop, hstate]
        refine ⟨Nat.le_trans hsix (Nat.le_trans (hcount hfailed) ?_), hin⟩
        rw [Tables.failures, htries, hbefore, List.append_nil]
      | cons z mid =>
        rw [List.cons_append, List.cons.injEq] at hmid
        exact absurd hmid.2.symm (by simp)
    · cases mid with
      | nil =>
        rw [List.append_nil] at hbefore
        rw [List.nil_append, List.cons.injEq] at hmid
        obtain ⟨rfl, -⟩ := hmid
        obtain ⟨hfailed, hsix, hin⟩ := hgave hgaveUp
        rw [hop, hstate]
        refine ⟨Nat.le_trans hsix (Nat.le_trans (hcount hfailed) ?_), hin⟩
        rw [Tables.failures, htries, hbefore]
      | cons z mid =>
        rw [List.cons_append, List.cons.injEq] at hmid
        obtain ⟨rfl, -⟩ := hmid
        exact h.gaveUp before y mid hbefore hgaveUp
  · rw [htries] at hy
    rcases List.mem_append.1 hy with hy | hy
    · exact h.accepted y hy hres
    · rw [List.mem_singleton.1 hy] at hres ⊢
      exact haccepted hres
  · rw [hrows] at hr
    obtain ⟨r₀, hr₀, rfl⟩ := List.mem_map.1 hr
    have htenant₀ : r₀.tenantId = who.tenantId := (congrArg Prod.fst (hslot r₀)).symm.trans htenant
    have hold := h.handoff r₀ hr₀ htenant₀
    rw [htries, lastHandoff_concat]
    by_cases hkey : slot r₀ = (who.tenantId, j.row.operationId)
    · rw [if_pos hkey]
      have hr₀op : r₀.operationId = j.row.operationId := congrArg Prod.snd hkey
      show x.handoff.or r₀.handoff = (if x.operationId = r₀.operationId then x.handoff else none).or _
      rw [if_pos (hop.trans hr₀op.symm), hold]
    · rw [if_neg hkey]
      have hr₀op : x.operationId ≠ r₀.operationId := fun heq => hkey (Prod.ext htenant₀ (heq.symm.trans hop))
      rw [if_neg hr₀op, hold]
      rfl

theorem handedOff_none (tenantId op : String) (rows : List ApprovalRow) : handedOff tenantId op none rows = rows := by
  unfold handedOff
  refine List.map_id'' (fun r => ?_) rows
  split <;> rfl

theorem handoff_rows (j : Joined) (v : ApprovalHandoff) (t : Tables) :
    (t.handoff who j v).db.approvals =
      handedOff who.tenantId j.row.operationId (if j.row.state = .pending then some v else none) t.db.approvals := by
  unfold Tables.handoff
  split
  · refine List.map_congr_left fun r _ => ?_
    by_cases hkey : slot r = (who.tenantId, j.row.operationId)
    · rw [if_pos ((approvalKey_slot _ _ r).2 hkey), if_pos hkey]
      rfl
    · rw [if_neg fun h => hkey ((approvalKey_slot _ _ r).1 h), if_neg hkey]
  · rw [handedOff_none]

theorem handoff_rest (j : Joined) (v : ApprovalHandoff) (t : Tables) :
    (t.handoff who j v).published = t.published ∧ (t.handoff who j v).progress = t.progress ∧
      (t.handoff who j v).tries = t.tries := by
  unfold Tables.handoff
  split <;> exact ⟨rfl, rfl, rfl⟩

theorem markPublished_marks {m : PublishedMark} (hm : m ∈ (t.markPublished j).published) :
    m ∈ t.published ∨ m = ⟨j.row.operationId, j.row.state⟩ := by
  rcases Table.mem_upsert hm with hm | hm | ⟨-, -, -, rfl⟩
  · exact .inl hm
  · exact .inr hm
  · exact .inr rfl

theorem markPublished_progress {p : PublishRow} (hp : p ∈ (t.markPublished j).progress) : p ∈ t.progress :=
  (Table.mem_delete.1 hp).1

theorem succeed_sound (live sent : Bool) (h : Sound who copies hints t) (hj : Read who copies t j)
    (hin : InD1 copies j.row.operationId j.row.state) (hlive : sent = true → live = true)
    (hhint : sent = true → ∃ h ∈ hints, h.operationId = j.row.operationId ∧ h.status = j.row.state) :
    Sound who copies hints (t.succeed who j live sent) ∧ Later who t (t.succeed who j live sent) := by
  obtain ⟨hpub, hprog, htries⟩ :
      (if live then t.handoff who j (if sent then .accepted else .notSent) else t).published = t.published ∧
      (if live then t.handoff who j (if sent then .accepted else .notSent) else t).progress = t.progress ∧
      (if live then t.handoff who j (if sent then .accepted else .notSent) else t).tries = t.tries := by
    split
    · exact handoff_rest j _ t
    · exact ⟨rfl, rfl, rfl⟩
  refine ended_sound h hj (x := ⟨j.row.operationId, j.row.state, live, if sent then .accepted else .notSent, false⟩) rfl rfl
    (congrArg (· ++ [_]) htries) ?_ (fun m hm => ?_) (fun p hp => ?_) (fun hgave => by cases hgave) fun hres => ?_
  · show (if live then t.handoff who j (if sent then .accepted else .notSent) else t).db.approvals = _
    cases live with
    | true =>
      rw [if_pos rfl, handoff_rows]
      refine congrArg (handedOff _ _ · _) ?_
      by_cases hpending : j.row.state = .pending <;> cases sent <;> simp [Try.handoff, hpending]
    | false =>
      have hsent : sent = false := by
        cases sent with
        | false => rfl
        | true => exact absurd (hlive rfl) Bool.false_ne_true
      subst hsent
      have hnone : Try.handoff ⟨j.row.operationId, j.row.state, false, if false then .accepted else .notSent, false⟩ = none := by
        by_cases hpending : j.row.state = .pending <;> simp [Try.handoff, hpending]
      rw [hnone, handedOff_none]
      rfl
  · rcases markPublished_marks hm with hm | hm
    · exact .inl (hpub ▸ hm)
    · exact .inr ⟨hm, .inl hin⟩
  · exact .inl (hprog ▸ markPublished_progress hp)
  · cases sent with
    | true => exact hhint rfl
    | false => cases hres

theorem fail_sound {attempts : Nat} {indexed : Bool} (now : Int) (hinting : Bool) (h : Sound who copies hints t)
    (hj : Read who copies t j) (hattempts : attempts = j.attempts)
    (hin : indexed = true → InD1 copies j.row.operationId j.row.state) :
    Sound who copies hints (t.fail who j attempts now indexed hinting) ∧
      Later who t (t.fail who j attempts now indexed hinting) := by
  subst hattempts
  obtain ⟨hpub, hprog, htries⟩ : (if hinting then t.handoff who j .failed else t).published = t.published ∧
      (if hinting then t.handoff who j .failed else t).progress = t.progress ∧
      (if hinting then t.handoff who j .failed else t).tries = t.tries := by
    split
    · exact handoff_rest j _ t
    · exact ⟨rfl, rfl, rfl⟩
  have hrows (gaveUp : Bool) : (if hinting then t.handoff who j .failed else t).db.approvals =
      handedOff who.tenantId j.row.operationId
        (Try.handoff ⟨j.row.operationId, j.row.state, true, if hinting then .refused else .unwritten, gaveUp⟩) t.db.approvals := by
    cases hinting with
    | true =>
      rw [if_pos rfl, handoff_rows]
      refine congrArg (handedOff _ _ · _) ?_
      by_cases hpending : j.row.state = .pending <;> simp [Try.handoff, hpending]
    | false =>
      have hnone : Try.handoff ⟨j.row.operationId, j.row.state, true, if false then .refused else .unwritten, gaveUp⟩ = none := by
        by_cases hpending : j.row.state = .pending <;> simp [Try.handoff, hpending]
      rw [hnone, handedOff_none]
      rfl
  have hfailed (gaveUp : Bool) :
      Try.failed ⟨j.row.operationId, j.row.state, true, if hinting then .refused else .unwritten, gaveUp⟩ = true := by
    cases hinting <;> rfl
  have haccepted : (if hinting then TryResult.refused else .unwritten) ≠ .accepted := by cases hinting <;> decide
  unfold Tables.fail
  dsimp only
  split
  · rename_i hgive
    rw [Bool.and_eq_true, decide_eq_true_eq] at hgive
    refine ended_sound h hj (x := ⟨j.row.operationId, j.row.state, true, if hinting then .refused else .unwritten, true⟩) rfl rfl
      (congrArg (· ++ [_]) htries) (hrows true) (fun m hm => ?_) (fun p hp => ?_)
      (fun _ => ⟨hfailed true, hgive.2, hin hgive.1⟩) fun hres => absurd hres haccepted
    · rcases markPublished_marks hm with hm | hm
      · exact .inl (hpub ▸ hm)
      · exact .inr ⟨hm, .inl (hin hgive.1)⟩
    · exact .inl (hprog ▸ markPublished_progress hp)
  · refine ended_sound h hj (x := ⟨j.row.operationId, j.row.state, true, if hinting then .refused else .unwritten, false⟩) rfl rfl
      (congrArg (· ++ [_]) htries) (hrows false) (fun m hm => .inl (hpub ▸ hm)) (fun p hp => ?_)
      (fun hgave => by cases hgave) fun hres => absurd hres haccepted
    rcases Table.mem_upsert hp with hp | hp | ⟨-, -, -, hp⟩
    · exact .inl (hprog ▸ hp)
    · rw [hp]
      exact .inr ⟨rfl, rfl, hfailed false, rfl, hin⟩
    · rw [← hp]
      exact .inr ⟨rfl, rfl, hfailed false, rfl, hin⟩

/-- Marking the holds of an agent the registry does not know. -/
theorem unprovisioned_sound {due : List Joined} (h : Sound who copies hints t) (hdue : ∀ j ∈ due, Read who copies t j) :
    Sound who copies hints (t.unprovisioned due) ∧ Later who t (t.unprovisioned due) := by
  induction due generalizing t with
  | nil => exact ⟨h, .refl t⟩
  | cons j due ih =>
    have hnone : Try.handoff ⟨j.row.operationId, j.row.state, false, .unprovisioned, false⟩ = none := by
      by_cases hpending : j.row.state = .pending <;> simp [Try.handoff, hpending]
    have hended : Sound who copies hints ((t.markPublished j).log j false .unprovisioned false) ∧
        Later who t ((t.markPublished j).log j false .unprovisioned false) :=
      ended_sound h (hdue j List.mem_cons_self)
        (x := ⟨j.row.operationId, j.row.state, false, .unprovisioned, false⟩) rfl rfl rfl
        (by rw [hnone, handedOff_none]; rfl) (fun m hm => (markPublished_marks hm).imp_right fun heq => ⟨heq, .inr rfl⟩)
        (fun p hp => .inl (markPublished_progress hp)) (fun hgave => by cases hgave) fun hres => by cases hres
    obtain ⟨hs, hl⟩ := hended
    obtain ⟨hs', hl'⟩ := ih hs fun j' hj' => (hdue j' (List.mem_cons_of_mem _ hj')).later hl
    exact ⟨hs', hl.trans hl'⟩

end Tables

/-! ## The loop -/

/-- The holds a pass has still to finish. -/
def Stage.joined : Stage → List Joined
  | .asked _ due | .looked _ due _ => due
  | .describing p j | .writing p j _ | .signing p j | .hinting p j | .closing p j _ => j :: p.rest
  | .over_ _ _ | .crashed => []

/-- The holds a pass found due. -/
def Stage.due : Stage → List Joined
  | .asked _ due | .looked _ due _ => due
  | .describing p _ | .writing p _ _ | .signing p _ | .hinting p _ | .closing p _ _ => p.due
  | .over_ _ _ | .crashed => []

/-- What a pass has done by the wait it is at. -/
def Stage.Ready (copies : List IndexRow) (hints : List Hint) (writes : List Write) : Stage → Prop
  | .writing _ j k => ∃ x, writes[k]? = some x ∧ x.row.operationId = j.row.operationId ∧ x.row.status = j.row.state
  | .signing p j => p.live = true ∧ InD1 copies j.row.operationId j.row.state
  | .hinting p j | .closing p j _ => p.live = true ∧ InD1 copies j.row.operationId j.row.state ∧
      ∃ h ∈ hints, h.operationId = j.row.operationId ∧ h.status = j.row.state
  | _ => True

/-- The hold's state was tried. -/
def Tables.Tried (t : Tables) (j : Joined) : Prop :=
  ∃ x ∈ t.tries, x.operationId = j.row.operationId ∧ x.state = j.row.state

/-- Each hold a pass found due is still before it, or was tried. -/
def Stage.Covers (t : Tables) (s : Stage) : Prop :=
  match s with
  | .describing p _ | .writing p _ _ | .signing p _ | .hinting p _ | .closing p _ _ =>
    ∀ j ∈ p.due, j ∈ s.joined ∨ t.Tried j
  | _ => True

section Loop

variable {who : Agent} {hintTarget : ProvisionedAgent → Option String} {copies : List IndexRow} {hints : List Hint}
  {writes : List Write} {t t' : Tables} {j : Joined} {p : Pass}

theorem Tables.Tried.later (h : t.Tried j) (hl : Later who t t') : t'.Tried j := by
  obtain ⟨x, hx, hrest⟩ := h
  exact ⟨x, hl.mem hx, hrest⟩

/-- Where the loop leaves a pass. -/
structure Gone (who : Agent) (copies : List IndexRow) (hints : List Hint) (writes : List Write) (due : List Joined) (t : Tables)
    (r : Tables × Stage) : Prop where
  sound : Sound who copies hints r.1
  later : Later who t r.1
  joined : ∀ j ∈ r.2.joined, Read who copies r.1 j
  ready : r.2.Ready copies hints writes
  covers : r.2.Covers r.1
  through : ∀ answer, r.2 = .over_ .through answer →
    (∃ now, answer.nextAt = r.1.nextAt who now) ∧ ∀ j ∈ due, r.1.Tried j

theorem tried_succeed (j : Joined) (live sent : Bool) (t : Tables) : (t.succeed who j live sent).Tried j :=
  ⟨_, List.mem_append_right _ (List.mem_singleton_self _), rfl, rfl⟩

theorem tried_fail (j : Joined) (attempts : Nat) (now : Int) (indexed hinting : Bool) (t : Tables) :
    (t.fail who j attempts now indexed hinting).Tried j := by
  unfold Tables.fail
  dsimp only
  split <;> exact ⟨_, List.mem_append_right _ (List.mem_singleton_self _), rfl, rfl⟩

theorem live_of_target {a : String} (h : p.target hintTarget = some a) : p.live = true := by
  unfold Pass.target at h
  unfold Pass.live
  split at h
  · cases h
  · rename_i hnone
    rw [Option.isNone_iff_eq_none]
    exact Option.not_isSome_iff_eq_none.1 hnone

theorem go_sound {rest : List Joined} (published : Nat) (h : Sound who copies hints t)
    (hrest : ∀ j ∈ rest, Read who copies t j) (hdue : ∀ j ∈ p.due, j ∈ rest ∨ t.Tried j) :
    Gone who copies hints writes p.due t (p.go who hintTarget rest published t) := by
  induction rest generalizing published t with
  | nil =>
    refine ⟨h, .refl t, fun j hj => (List.not_mem_nil hj).elim, trivial, trivial, fun answer heq => ?_⟩
    cases heq
    exact ⟨⟨_, rfl⟩, fun j hj => (hdue j hj).resolve_left List.not_mem_nil⟩
  | cons j rest ih =>
    have hj := hrest j List.mem_cons_self
    unfold Pass.go
    cases hindexed : j.indexed with
    | false =>
      exact ⟨h, .refl t, hrest, trivial, hdue, fun answer heq => by cases heq⟩
    | true =>
      have hin := hj.indexed hindexed
      rw [Bool.not_true, if_neg Bool.false_ne_true]
      cases htarget : p.target hintTarget with
      | none =>
        obtain ⟨hs, hl⟩ := succeed_sound p.live false h hj hin (fun h => nomatch h) fun h => nomatch h
        have hgone := ih (published + 1) hs (fun j' hj' => (hrest j' (List.mem_cons_of_mem _ hj')).later hl)
          fun j' hj' => by
            rcases hdue j' hj' with hin | htried
            · rcases List.mem_cons.1 hin with rfl | hin
              · exact .inr (tried_succeed _ _ _ _)
              · exact .inl hin
            · exact .inr (htried.later hl)
        exact { hgone with later := hl.trans hgone.later }
      | some a =>
        exact ⟨h, .refl t, hrest, ⟨live_of_target htarget, hin⟩, hdue, fun answer heq => by cases heq⟩

/-- The loop after a try that ended. -/
theorem ended_gone {published : Nat} {t₀ : Tables} (h : Sound who copies hints t) (hl : Later who t₀ t)
    (hrest : ∀ j ∈ p.rest, Read who copies t₀ j) (hdue : ∀ j' ∈ p.due, j' ∈ j :: p.rest ∨ t₀.Tried j') (htried : t.Tried j) :
    Gone who copies hints writes p.due t₀ (p.go who hintTarget p.rest published t) := by
  have hgone : Gone who copies hints writes p.due t (p.go who hintTarget p.rest published t) := go_sound published h
    (fun j' hj' => (hrest j' hj').later hl) fun j' hj' => by
      rcases hdue j' hj' with hin | htried'
      · rcases List.mem_cons.1 hin with rfl | hin
        · exact .inr htried
        · exact .inl hin
      · exact .inr (htried'.later hl)
  exact { hgone with later := hl.trans hgone.later }

end Loop

end Antiproton.Publish
