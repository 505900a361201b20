import Antiproton.Copies.Pages
import Antiproton.Lib.History

/-!
# Antiproton.Copies.Kept

The copy beside the registry, statement by statement: publishes, delivery reports, deletes and prunes land in any order.
A delete changes the registry before it marks (`DELETE`, `cf/src/provision/handlers.ts`), and deleted is final
(`registry.update`, `cf/src/control-plane.ts`).

* `kept_final`: once a mark or a prune lands after the registry says deleted, the agent's rows stay marked and without text.
* `prune_drops`: which rows a prune takes.
* `copies_kept`: the above of every interleaving, with the pages whole.
-/

namespace Antiproton.Copies

open Js Publish History

/-- The registry, the copy, and the delete times the registry has answered before its last change. -/
structure World where
  agents : List Registered
  rows : List Row
  told : List (String × String × Int)

def Registered.of (t a : String) (p : Registered) : Bool := p.tenantId == t && p.agentId == a

/-- A delete of the agent has been answered at the time: now, or before a later change of its registry row. -/
def World.said (w : World) (t a : String) (at_ : Int) : Prop :=
  deletedAt w.agents t a = some at_ ∨ (t, a, at_) ∈ w.told

instance (w : World) (t a : String) (at_ : Int) : Decidable (w.said t a at_) :=
  inferInstanceAs (Decidable (_ ∨ _))

/-- What the registry answers of an agent's delete, kept as its row changes. -/
def World.tell (w : World) (t a : String) : List (String × String × Int) :=
  match deletedAt w.agents t a with
  | none => w.told
  | some at_ => (t, a, at_) :: w.told

inductive Event
  /-- `registry.create`. -/
  | created (t a : String) (now : Int)
  /-- `registry.update` of a live patch: one that names a status changes no deleted row. -/
  | patched (t a : String) (status : Bool) (now : Int)
  /-- `registry.update` to `deleted`. -/
  | deleted (t a : String) (at_ now : Int)
  | upsert (r : Row)
  | setDelivery (t a op : String) (status : ApprovalState) (delivery description : Json)
  /-- A delete's `markAgentDeleted`, after the registry said so. -/
  | keepHolds (t a : String) (at_ : Int)
  | prune (ended deleted : Int)

def World.step (e : Event) (w : World) : Unit × World :=
  match e with
  | .created t a now =>
    ((), { w with
      agents := Table.insertOrIgnore (Registered.of t a) ⟨t, a, false, none, now⟩ w.agents })
  | .patched t a status now =>
    ((), { w with
      agents := Table.update (fun p => p.of t a && !(status && p.deleted)) (fun p => { p with updatedAt := now }) w.agents
      told := w.tell t a })
  | .deleted t a at_ now =>
    ((), { w with
      agents := Table.update (Registered.of t a)
        (fun p => { p with
          deleted := true
          deletedAt := some at_
          updatedAt := now }) w.agents
      told := w.tell t a })
  | .upsert r => ((), { w with rows := upsert w.agents r w.rows })
  | .setDelivery t a op status delivery description =>
    ((), { w with rows := setDelivery t a op status delivery description w.rows })
  | .keepHolds t a at_ => if w.said t a at_ then ((), { w with rows := markAgentDeleted t a at_ w.rows }) else ((), w)
  | .prune ended deleted => ((), { w with rows := prune w.agents ended deleted w.rows })

/-- The world after the events, from a registry and an empty copy. -/
def World.run (agents : List Registered) (events : List Event) : World := final World.step events ⟨agents, [], []⟩

/-! ## The registry -/

section Registry

variable {t a : String} {agents : List Registered}

theorem deletedAt_isSome : (deletedAt agents t a).isSome ↔ ∃ p ∈ agents, p.of t a = true ∧ p.deleted = true := by
  unfold deletedAt deletedRow
  rw [Option.isSome_map, Table.one_isSome, List.any_eq_true]
  refine exists_congr fun p => and_congr_right fun _ => ?_
  rw [Bool.and_eq_true]
  rfl

/-- Deleted is final: no change of a registry row takes it back. -/
theorem deletedAt_update {c : Registered → Bool} {f : Registered → Registered} (hof : ∀ p, (f p).of t a = p.of t a)
    (hdel : ∀ p, p.deleted = true → (f p).deleted = true) (h : (deletedAt agents t a).isSome) :
    (deletedAt (Table.update c f agents) t a).isSome := by
  rw [deletedAt_isSome] at h ⊢
  obtain ⟨p, hp, hofp, hdelp⟩ := h
  refine ⟨if c p then f p else p, Table.mem_update.2 ⟨p, hp, rfl⟩, ?_, ?_⟩
  · split
    · rw [hof, hofp]
    · exact hofp
  · split
    · exact hdel p hdelp
    · exact hdelp

theorem Registered.of_iff {p : Registered} : p.of t a = true ↔ p.tenantId = t ∧ p.agentId = a := by
  rw [Registered.of, Bool.and_eq_true, beq_iff_eq, beq_iff_eq]

/-- A change of another agent's row leaves what the registry answers of this one's delete. -/
theorem deletedAt_other {t' a' : String} {c : Registered → Bool} {f : Registered → Registered} (hne : ¬(t' = t ∧ a' = a))
    (hc : ∀ p, c p = true → p.of t' a' = true) (hof : ∀ p, (f p).of t a = p.of t a) :
    deletedAt (Table.update c f agents) t a = deletedAt agents t a := by
  have hother {p : Registered} (hp : c p = true) : p.of t a = false := by
    obtain ⟨ht, ha⟩ := Registered.of_iff.1 (hc p hp)
    refine Bool.eq_false_iff.2 fun h => hne ?_
    obtain ⟨ht', ha'⟩ := Registered.of_iff.1 h
    exact ⟨ht.symm.trans ht', ha.symm.trans ha'⟩
  have hq (p : Registered) : (p.tenantId == t && p.agentId == a && p.deleted) = (p.of t a && p.deleted) := rfl
  unfold deletedAt deletedRow
  refine congrArg (Option.map _) ?_
  rw [Table.one_update]
  · refine (Option.map_congr fun p hp => ?_).trans Option.map_id'
    refine if_neg fun hcp => ?_
    have hfound := Table.one_some hp
    rw [hq, hother hcp] at hfound
    cases hfound
  · intro p hp hcp
    rw [hq, hother hcp] at hp
    cases hp
  · intro p _ hcp
    rw [hq, hof, hother hcp]
    rfl

end Registry

section Steps

variable {t a : String} {m : Int}

theorem deleted_step (w : World) (e : Event) (h : (deletedAt w.agents t a).isSome) :
    (deletedAt (w.step e).2.agents t a).isSome := by
  cases e with
  | created t' a' now =>
    dsimp only [World.step]
    unfold Table.insertOrIgnore
    split
    · exact h
    · rw [deletedAt_isSome] at h ⊢
      obtain ⟨p, hp, hofp⟩ := h
      exact ⟨p, List.mem_append_left _ hp, hofp⟩
  | patched t' a' status now => exact deletedAt_update (fun _ => rfl) (fun _ hp => hp) h
  | deleted t' a' at_ now => exact deletedAt_update (fun _ => rfl) (fun _ _ => rfl) h
  | keepHolds t' a' at_ =>
    dsimp only [World.step]
    split
    · exact h
    · exact h
  | upsert r => exact h
  | setDelivery t' a' op status delivery description => exact h
  | prune ended deleted => exact h

theorem mem_tell {w : World} {t' a' : String} {x : String × String × Int} :
    x ∈ w.tell t' a' ↔ x ∈ w.told ∨ x.1 = t' ∧ x.2.1 = a' ∧ deletedAt w.agents t' a' = some x.2.2 := by
  unfold World.tell
  cases hd : deletedAt w.agents t' a' with
  | none => simp
  | some at_ =>
    rw [List.mem_cons, or_comm]
    refine or_congr_right ?_
    obtain ⟨x₁, x₂, x₃⟩ := x
    simp [eq_comm]

/-- A delete time once answered stays so. -/
theorem said_update {w : World} {t' a' : String} {c : Registered → Bool} {f : Registered → Registered}
    (hc : ∀ p, c p = true → p.of t' a' = true) (hof : ∀ p, (f p).of t a = p.of t a) (h : w.said t a m) :
    deletedAt (Table.update c f w.agents) t a = some m ∨ (t, a, m) ∈ w.tell t' a' := by
  rcases h with h | h
  · by_cases heq : t' = t ∧ a' = a
    · obtain ⟨rfl, rfl⟩ := heq
      exact .inr (mem_tell.2 (.inr ⟨rfl, rfl, h⟩))
    · exact .inl ((deletedAt_other heq hc hof).trans h)
  · exact .inr (mem_tell.2 (.inl h))

theorem said_step (w : World) (e : Event) (h : w.said t a m) : (w.step e).2.said t a m := by
  cases e with
  | created t' a' now =>
    refine h.imp_left fun h => ?_
    dsimp only [World.step]
    unfold Table.insertOrIgnore
    split
    · exact h
    · unfold deletedAt deletedRow at h ⊢
      rw [Table.one_append]
      obtain ⟨p, hp, hm⟩ := Option.map_eq_some_iff.1 h
      rw [hp]
      exact congrArg some hm
  | patched t' a' status now => exact said_update (fun p hp => (Bool.and_eq_true_iff.1 hp).1) (fun _ => rfl) h
  | deleted t' a' at_ now => exact said_update (fun _ hp => hp) (fun _ => rfl) h
  | keepHolds t' a' at_ =>
    dsimp only [World.step]
    split
    · exact h
    · exact h
  | upsert r => exact h
  | setDelivery t' a' op status delivery description => exact h
  | prune ended deleted => exact h

end Steps

/-! ## What a statement makes of a row -/

inductive Became (w : World) (r : Row) : Row → Prop
  | same : Became w r r
  | delivered (status : ApprovalState) (delivery description : Json) : Became w r (r.delivered status delivery description)
  | marked (m : Int) : w.said r.tenantId r.agentId m → Became w r (r.marked (some m))
  | replaced (n : Row) : n.at_ r = true → Became w r (n.replaced w.agents r)

section Rows

variable {w : World} {r r' : Row}

theorem Became.pk (h : Became w r r') : r'.pk = r.pk := by
  cases h <;> rfl

/-- A mark stays as it is. -/
theorem Became.mark (h : Became w r r') {m : Int} (hm : r.agentDeletedAt = some m) : r'.agentDeletedAt = some m := by
  cases h with
  | same => exact hm
  | delivered status delivery description => exact hm
  | marked m' _ =>
    show r.agentDeletedAt.or (some m') = some m
    rw [hm]
    rfl
  | replaced n _ =>
    show r.agentDeletedAt.or (deletedAt w.agents n.tenantId n.agentId) = some m
    rw [hm]
    rfl

theorem clean_setDelivery {status : ApprovalState} {delivery description : Json} (h : Clean r.item) :
    Clean (r.delivered status delivery description).item := by
  unfold Row.delivered
  dsimp only
  split
  · exact clean_described (clean_delivered h delivery) description
  · exact clean_delivered h delivery

theorem Became.clean (h : Became w r r') (hsaid : ∀ m, r.agentDeletedAt = some m → w.said r.tenantId r.agentId m)
    (hdel : ∀ t a m, w.said t a m → (deletedAt w.agents t a).isSome) (hclean : r.agentDeletedAt.isSome → Clean r.item)
    (hm : r'.agentDeletedAt.isSome) : Clean r'.item := by
  cases h with
  | same => exact hclean hm
  | delivered status delivery description => exact clean_setDelivery (hclean hm)
  | marked m _ => exact clean_dropAudit r.item
  | replaced n hat =>
    obtain ⟨ht, ha, -⟩ := at_iff.1 hat
    have hd : (deletedAt w.agents n.tenantId n.agentId).isSome := by
      cases hr : r.agentDeletedAt with
      | some m =>
        rw [← ht, ← ha]
        exact hdel _ _ m (hsaid m hr)
      | none =>
        have hm : (r.agentDeletedAt.or (deletedAt w.agents n.tenantId n.agentId)).isSome := hm
        rwa [hr, Option.none_or] at hm
    show Clean (if (deletedAt w.agents n.tenantId n.agentId).isSome then dropAudit n.item else n.item)
    rw [if_pos hd]
    exact clean_dropAudit n.item

theorem Became.said (h : Became w r r') (hsaid : ∀ m, r.agentDeletedAt = some m → w.said r.tenantId r.agentId m) (m : Int)
    (hm : r'.agentDeletedAt = some m) : w.said r.tenantId r.agentId m := by
  have hor {o : Option Int} (ho : ∀ m, o = some m → w.said r.tenantId r.agentId m) (hm : r.agentDeletedAt.or o = some m) :
      w.said r.tenantId r.agentId m := by
    cases hr : r.agentDeletedAt with
    | some m' =>
      rw [hr] at hm
      exact hsaid m (hr.trans hm)
    | none =>
      rw [hr, Option.none_or] at hm
      exact ho m hm
  cases h with
  | same => exact hsaid m hm
  | delivered status delivery description => exact hsaid m hm
  | marked m' hm' => exact hor (fun m h => (Option.some.inj h) ▸ hm') hm
  | replaced n hat =>
    obtain ⟨ht, ha, -⟩ := at_iff.1 hat
    refine hor (fun m h => ?_) hm
    rw [ht, ha]
    exact .inl h

theorem became_update {p : Row → Bool} {f : Row → Row} {rows : List Row} (h : ∀ r ∈ rows, p r = true → Became w r (f r))
    (hr' : r' ∈ Table.update p f rows) : ∃ r ∈ rows, Became w r r' := by
  obtain ⟨r, hr, rfl⟩ := Table.mem_update.1 hr'
  refine ⟨r, hr, ?_⟩
  split
  · exact h r hr ‹_›
  · exact .same

theorem pk_at {k r : Row} : k.at_ r = true ↔ r.pk = k.pk := by
  rw [at_iff, Row.pk, Row.pk, Prod.mk.injEq, Prod.mk.injEq]

/-- The rows a statement leaves: those there were, as it made them, and a hold's first. -/
theorem rows_step (w : World) (e : Event) (hr' : r' ∈ (w.step e).2.rows) :
    (∃ r ∈ w.rows, Became w r r') ∨ ∃ n, e = .upsert n ∧ r' = n.written w.agents ∧ ∀ r ∈ w.rows, r.pk ≠ n.pk := by
  cases e with
  | created t a now => exact .inl ⟨r', hr', .same⟩
  | patched t a status now => exact .inl ⟨r', hr', .same⟩
  | deleted t a at_ now => exact .inl ⟨r', hr', .same⟩
  | upsert n =>
    dsimp only [World.step] at hr'
    unfold upsert at hr'
    cases hone : Table.one n.at_ w.rows with
    | none =>
      rw [hone] at hr'
      rcases List.mem_append.1 hr' with hr' | hr'
      · exact .inl ⟨r', hr', .same⟩
      · refine .inr ⟨n, rfl, List.mem_singleton.1 hr', fun r hr heq => ?_⟩
        have hnot := Table.one_eq_none.1 hone r hr
        rw [pk_at.2 heq] at hnot
        cases hnot
    | some c =>
      rw [hone] at hr'
      exact .inl (became_update (fun r _ hp => .replaced n (Bool.and_eq_true_iff.1 hp).1) hr')
  | setDelivery t a op status delivery description =>
    exact .inl (became_update (fun r _ _ => .delivered status delivery description) hr')
  | keepHolds t a at_ =>
    dsimp only [World.step] at hr'
    split at hr'
    · rename_i hsaid
      refine .inl (became_update (fun r _ hof => ?_) hr')
      obtain ⟨rfl, rfl⟩ := of_iff.1 hof
      exact .marked at_ hsaid
    · exact .inl ⟨r', hr', .same⟩
  | prune ended deleted =>
    have hr' := (Table.mem_delete.1 (Table.mem_delete.1 hr').1).1
    refine .inl (became_update (fun r _ hp => ?_) hr')
    obtain ⟨m, hm⟩ := Option.isSome_iff_exists.1 (Bool.and_eq_true_iff.1 hp).2
    rw [hm]
    exact .marked m (.inl hm)

end Rows

/-! ## What holds of every world reached -/

structure Sound (w : World) : Prop where
  keys : Table.Unique Row.pk w.rows
  told : ∀ x ∈ w.told, (deletedAt w.agents x.1 x.2.1).isSome
  marked : ∀ r ∈ w.rows, ∀ m, r.agentDeletedAt = some m → w.said r.tenantId r.agentId m
  clean : ∀ r ∈ w.rows, r.agentDeletedAt.isSome → Clean r.item

theorem Sound.deleted {w : World} (h : Sound w) (t a : String) (m : Int) (hm : w.said t a m) :
    (deletedAt w.agents t a).isSome := by
  rcases hm with hm | hm
  · rw [hm]
    rfl
  · exact h.told (t, a, m) hm

section Invariant

variable {w : World}

theorem keys_step (h : Table.Unique Row.pk w.rows) (e : Event) : Table.Unique Row.pk (w.step e).2.rows := by
  cases e with
  | created t a now => exact h
  | patched t a status now => exact h
  | deleted t a at_ now => exact h
  | upsert n =>
    dsimp only [World.step]
    unfold upsert
    cases hone : Table.one n.at_ w.rows with
    | none =>
      have hclash : w.rows.any n.at_ = false := Table.any_eq_false.2 hone
      have hins : Table.Unique Row.pk (Table.insertOrIgnore n.at_ (n.written w.agents) w.rows) :=
        Table.unique_insertOrIgnore h fun r' heq => pk_at.2 heq
      unfold Table.insertOrIgnore at hins
      rwa [hclash] at hins
    | some c => exact Table.unique_update h fun r => rfl
  | setDelivery t a op status delivery description => exact Table.unique_update h fun r => rfl
  | keepHolds t a at_ =>
    dsimp only [World.step]
    split
    · exact Table.unique_update h fun r => rfl
    · exact h
  | prune ended deleted => exact Table.unique_delete (Table.unique_delete (Table.unique_update h fun r => rfl))

theorem told_step (h : Sound w) (e : Event) : ∀ x ∈ (w.step e).2.told, (deletedAt (w.step e).2.agents x.1 x.2.1).isSome := by
  have htell {t a : String} : ∀ x ∈ w.tell t a, (deletedAt w.agents x.1 x.2.1).isSome := by
    intro x hx
    rcases mem_tell.1 hx with hx | ⟨rfl, rfl, hx⟩
    · exact h.told x hx
    · rw [hx]
      rfl
  intro x hx
  refine deleted_step w e ?_
  cases e with
  | created t a now => exact h.told x hx
  | patched t a status now => exact htell x hx
  | deleted t a at_ now => exact htell x hx
  | upsert n => exact h.told x hx
  | setDelivery t a op status delivery description => exact h.told x hx
  | keepHolds t a at_ =>
    dsimp only [World.step] at hx
    split at hx
    · exact h.told x hx
    · exact h.told x hx
  | prune ended deleted => exact h.told x hx

theorem sound_step (h : Sound w) (e : Event) : Sound (w.step e).2 where
  keys := keys_step h.keys e
  told := told_step h e
  marked := by
    intro r' hr' m hm
    refine said_step w e ?_
    rcases rows_step w e hr' with ⟨r, hr, hb⟩ | ⟨n, -, rfl, -⟩
    · have hpk := hb.pk
      simp only [Row.pk, Prod.mk.injEq] at hpk
      rw [hpk.1, hpk.2.1]
      exact hb.said (h.marked r hr) m hm
    · exact .inl hm
  clean := by
    intro r' hr' hm
    rcases rows_step w e hr' with ⟨r, hr, hb⟩ | ⟨n, -, rfl, -⟩
    · exact hb.clean (h.marked r hr) h.deleted (h.clean r hr) hm
    · have hm : (deletedAt w.agents n.tenantId n.agentId).isSome := hm
      show Clean (if (deletedAt w.agents n.tenantId n.agentId).isSome then dropAudit n.item else n.item)
      rw [if_pos hm]
      exact clean_dropAudit n.item

theorem sound_start (agents : List Registered) : Sound ⟨agents, [], []⟩ where
  keys := Table.unique_nil
  told := fun _ h => absurd h List.not_mem_nil
  marked := fun _ h => absurd h List.not_mem_nil
  clean := fun _ h => absurd h List.not_mem_nil

theorem sound_final (h : Sound w) (events : List Event) : Sound (final World.step events w) :=
  final_invariant h fun e _ hw => sound_step hw e

theorem deleted_final {t a : String} (h : (deletedAt w.agents t a).isSome) (events : List Event) :
    (deletedAt (final World.step events w).agents t a).isSome :=
  final_invariant (I := fun w => (deletedAt w.agents t a).isSome) h fun e w hw => deleted_step w e hw

end Invariant

/-! ## Kept holds -/

/-- A mark of the agent's rows lands, the registry saying it is deleted. -/
def Event.marks (t a : String) (w : World) : Event → Prop
  | .keepHolds t' a' at_ => t' = t ∧ a' = a ∧ w.said t a at_
  | .prune _ _ => (deletedAt w.agents t a).isSome
  | _ => False

/-- The registry says the agent is deleted, and its rows are marked. -/
def World.kept (t a : String) (w : World) : Prop :=
  (deletedAt w.agents t a).isSome ∧ ∀ r ∈ w.rows, r.of t a = true → r.agentDeletedAt.isSome

section Kept

variable {w : World} {t a : String}

theorem kept_step (e : Event) (h : w.kept t a) : (w.step e).2.kept t a := by
  obtain ⟨hdel, hrows⟩ := h
  refine ⟨deleted_step w e hdel, fun r' hr' hof => ?_⟩
  rcases rows_step w e hr' with ⟨r, hr, hb⟩ | ⟨n, -, rfl, -⟩
  · have hpk := hb.pk
    simp only [Row.pk, Prod.mk.injEq] at hpk
    have hof : r.of t a = true := by
      rw [of_iff] at hof ⊢
      rwa [← hpk.1, ← hpk.2.1]
    obtain ⟨m, hm⟩ := Option.isSome_iff_exists.1 (hrows r hr hof)
    rw [hb.mark hm]
    rfl
  · obtain ⟨rfl, rfl⟩ := of_iff.1 hof
    exact hdel

theorem kept_of_marks (h : Sound w) {e : Event} (he : e.marks t a w) : (w.step e).2.kept t a := by
  cases e with
  | keepHolds t' a' at_ =>
    obtain ⟨rfl, rfl, hsaid⟩ := he
    refine ⟨deleted_step w _ (h.deleted _ _ _ hsaid), fun r' hr' hof => ?_⟩
    dsimp only [World.step] at hr'
    rw [if_pos hsaid] at hr'
    obtain ⟨r, hr, rfl⟩ := Table.mem_update.1 hr'
    have hofr : r.of t' a' = true := by
      split at hof
      · exact hof
      · exact hof
    rw [if_pos hofr]
    show (r.agentDeletedAt.or (some at_)).isSome
    cases r.agentDeletedAt <;> rfl
  | prune ended deleted =>
    refine ⟨he, fun r' hr' hof => ?_⟩
    have hr' := (Table.mem_delete.1 (Table.mem_delete.1 hr').1).1
    obtain ⟨r, hr, rfl⟩ := Table.mem_update.1 hr'
    have hofr : r.of t a = true := by
      split at hof
      · exact hof
      · exact hof
    obtain ⟨rfl, rfl⟩ := of_iff.1 hofr
    have hdel : (deletedAt w.agents r.tenantId r.agentId).isSome := he
    rw [hdel, Bool.and_true]
    split
    · show (r.agentDeletedAt.or (deletedAt w.agents r.tenantId r.agentId)).isSome
      cases r.agentDeletedAt with
      | none => exact hdel
      | some m => rfl
    · rename_i hm
      exact Option.isSome_iff_ne_none.2 (by simpa using hm)
  | _ => exact he.elim

theorem kept_final (h : w.kept t a) (events : List Event) : (final World.step events w).kept t a :=
  final_invariant (I := World.kept t a) h fun e _ hw => kept_step e hw

/-- A list answers live agents' rows alone. -/
theorem list_live {agents : List Registered} {scope : Scope} {q : Query} {after : Option Cursor} {rows : List Row} {r : Row}
    (hr : r ∈ (list agents scope q after rows).rows) : deletedAt agents r.tenantId r.agentId = none := by
  have hmem : r ∈ Table.select (fun r => answers agents scope q r && after.all fun c => c.after r) rows := by
    unfold list at hr
    dsimp only at hr
    split at hr
    · exact (Table.orderBy_perm ..).mem_iff.1 (List.mem_of_mem_take (List.mem_of_mem_take hr))
    · exact (Table.orderBy_perm ..).mem_iff.1 (List.mem_of_mem_take hr)
  have hans := (Bool.and_eq_true_iff.1 (List.mem_filter.1 hmem).2).1
  unfold answers at hans
  simp only [Bool.and_eq_true, Option.isNone_iff_eq_none] at hans
  exact hans.1.1.1.2

/-- What a row must be to be dropped: ended and old of a live agent, its delete old of a deleted one. -/
def World.outdated (w : World) (endedBefore deletedBefore : Int) (r : Row) : Prop :=
  match deletedAt w.agents r.tenantId r.agentId with
  | none => ended r.status = true ∧ r.updatedAt < endedBefore
  | some _ => ∃ m, w.said r.tenantId r.agentId m ∧ m < deletedBefore

theorem prune_drops (h : Sound w) {endedBefore deletedBefore : Int} {r : Row} (hr : r ∈ w.rows)
    (hgone : ∀ r' ∈ prune w.agents endedBefore deletedBefore w.rows, r'.pk ≠ r.pk) :
    w.outdated endedBefore deletedBefore r := by
  let r' := if r.agentDeletedAt.isNone && (deletedAt w.agents r.tenantId r.agentId).isSome then
    r.marked (deletedAt w.agents r.tenantId r.agentId) else r
  have hr' : r' ∈ pruneMark w.agents w.rows := Table.mem_update.2 ⟨r, hr, rfl⟩
  have hcols : r'.pk = r.pk ∧ r'.status = r.status ∧ r'.updatedAt = r.updatedAt := by
    dsimp only [r']
    split
    · exact ⟨rfl, rfl, rfl⟩
    · exact ⟨rfl, rfl, rfl⟩
  have hmark : r'.agentDeletedAt = r.agentDeletedAt.or (deletedAt w.agents r.tenantId r.agentId) := by
    dsimp only [r']
    cases hm : r.agentDeletedAt with
    | some m => simp [hm]
    | none =>
      cases hd : deletedAt w.agents r.tenantId r.agentId with
      | none => simp [hm]
      | some m => simp [Row.marked, hm]
  -- one of the two deletes took it
  have htaken : (r'.agentDeletedAt.isNone && ended r'.status && decide (r'.updatedAt < endedBefore)) = true ∨
      (r'.agentDeletedAt.any fun at_ => decide (at_ < deletedBefore)) = true := by
    by_contra hnot
    rw [not_or, Bool.not_eq_true, Bool.not_eq_true] at hnot
    exact hgone r' (Table.mem_delete.2 ⟨Table.mem_delete.2 ⟨hr', hnot.1⟩, hnot.2⟩) hcols.1
  rw [hcols.2.1, hcols.2.2, hmark] at htaken
  unfold World.outdated
  cases hd : deletedAt w.agents r.tenantId r.agentId with
  | none =>
    have hm : r.agentDeletedAt = none := by
      cases hm : r.agentDeletedAt with
      | none => rfl
      | some m =>
        have hdel := h.deleted _ _ m (h.marked r hr m hm)
        rw [hd] at hdel
        cases hdel
    simpa [hd, hm] using htaken
  | some d =>
    dsimp only
    cases hm : r.agentDeletedAt with
    | none =>
      refine ⟨d, .inl hd, ?_⟩
      simpa [hd, hm] using htaken
    | some m =>
      refine ⟨m, h.marked r hr m hm, ?_⟩
      simpa [hd, hm] using htaken

/-- A row goes at a prune only. -/
theorem drops (h : Sound w) (e : Event) {r : Row} (hr : r ∈ w.rows) (hgone : ∀ r' ∈ (w.step e).2.rows, r'.pk ≠ r.pk) :
    ∃ ended deleted, e = .prune ended deleted ∧ w.outdated ended deleted r := by
  have hupdate {p : Row → Bool} {f : Row → Row} (hf : ∀ r, (f r).pk = r.pk) :
      ∃ r' ∈ Table.update p f w.rows, r'.pk = r.pk := by
    refine ⟨if p r then f r else r, Table.mem_update.2 ⟨r, hr, rfl⟩, ?_⟩
    split
    · exact hf r
    · rfl
  have hstays (hex : ∃ r' ∈ (w.step e).2.rows, r'.pk = r.pk) : ∃ ended deleted, e = .prune ended deleted ∧
      w.outdated ended deleted r := by
    obtain ⟨r', hr', hpk⟩ := hex
    exact absurd hpk (hgone r' hr')
  cases e with
  | created t a now => exact hstays ⟨r, hr, rfl⟩
  | patched t a status now => exact hstays ⟨r, hr, rfl⟩
  | deleted t a at_ now => exact hstays ⟨r, hr, rfl⟩
  | upsert n =>
    refine hstays ?_
    dsimp only [World.step]
    unfold upsert
    cases Table.one n.at_ w.rows with
    | none => exact ⟨r, List.mem_append_left _ hr, rfl⟩
    | some c => exact hupdate fun r => rfl
  | setDelivery t a op status delivery description => exact hstays (hupdate fun r => rfl)
  | keepHolds t a at_ =>
    refine hstays ?_
    dsimp only [World.step]
    split
    · exact hupdate fun r => rfl
    · exact ⟨r, hr, rfl⟩
  | prune ended deleted => exact ⟨ended, deleted, rfl, prune_drops h hr hgone⟩

theorem mark_stays (h : Sound w) (e : Event) {r r' : Row} (hr : r ∈ w.rows) (hr' : r' ∈ (w.step e).2.rows) (hpk : r'.pk = r.pk)
    {m : Int} (hm : r.agentDeletedAt = some m) : r'.agentDeletedAt = some m := by
  rcases rows_step w e hr' with ⟨r₀, hr₀, hb⟩ | ⟨n, -, rfl, hnew⟩
  · have hsame : r₀ = r := List.inj_on_of_nodup_map h.keys hr₀ hr (hb.pk.symm.trans hpk)
    subst hsame
    exact hb.mark hm
  · exact absurd hpk.symm (hnew r hr)

end Kept

/-! ## Every interleaving -/

/-- What is read of the copy after each of the pieces of a history. -/
def readsOf (w : World) : List (List Event) → List Read
  | [] => []
  | piece :: rest =>
    let w' := final World.step piece w
    ⟨w'.agents, w'.rows⟩ :: readsOf w' rest

theorem readsOf_unique {w : World} (h : Sound w) (pieces : List (List Event)) :
    ∀ s ∈ readsOf w pieces, Table.Unique Row.pk s.rows := by
  induction pieces generalizing w with
  | nil => nofun
  | cons piece rest ih =>
    intro s hs
    have hnext : Sound (final World.step piece w) := sound_final h piece
    rcases List.mem_cons.1 hs with rfl | hs
    · exact hnext.keys
    · exact ih hnext s hs

/-- The row's ids come after the cursor's where its time is the cursor's. -/
def Cursor.untied (c : Cursor) (r : Row) : Prop :=
  r.updatedAt = c.u → toLex (c.t, toLex (c.a, c.o)) < toLex (r.tenantId, toLex (r.agentId, r.operationId))

/-- A deleted agent's holds are kept without text and unlisted, rows go when outdated alone, and the pages are whole: a row
written after a page was read is on a later one exactly where it does not tie with the page's cursor. -/
theorem copies_kept (agents : List Registered) (events : List Event) :
    -- marked once, an agent's rows hold no text, whatever lands later
    (∀ t a before e after, events = before ++ e :: after → e.marks t a (World.run agents before) →
      ∀ r ∈ (World.run agents events).rows, r.of t a = true → r.agentDeletedAt.isSome ∧ Clean r.item) ∧
    -- and no list answers a row of an agent the registry has said is deleted
    (∀ t a before after, events = before ++ after → (deletedAt (World.run agents before).agents t a).isSome →
      ∀ scope q c, ∀ r ∈ (list (World.run agents events).agents scope q c (World.run agents events).rows).rows,
        r.of t a = false) ∧
    -- a mark does not change while its row is there, and a row goes only when outdated
    (∀ x ∈ turns World.step events ⟨agents, [], []⟩, ∀ r ∈ x.before.rows,
      (∀ m, r.agentDeletedAt = some m → ∀ r' ∈ (x.before.step x.act).2.rows, r'.pk = r.pk → r'.agentDeletedAt = some m) ∧
      ((∀ r' ∈ (x.before.step x.act).2.rows, r'.pk ≠ r.pk) →
        ∃ ended deleted, x.act = .prune ended deleted ∧ x.before.outdated ended deleted r)) ∧
    -- with nothing written, the pages from any cursor on are the rows that match past it, once each, in order, and end
    (∀ scope q after n, (World.run agents events).rows.length < n → ∃ found,
      follow (World.run agents events).agents scope q (World.run agents events).rows n after = some found ∧
      Keyset.Ascending Row.key found ∧ found.Nodup ∧
      ∀ r, r ∈ found ↔ r ∈ (World.run agents events).rows ∧ answers (World.run agents events).agents scope q r = true ∧
        ∀ c, after = some c → c.after r = true) ∧
    (∀ c : Cursor, (encodeCursor c).bind decodeCursor = some c.raw) ∧
    -- a row written not before a page's cursor: where nothing more is written, on a later page just where it is untied
    (∀ (c : Cursor) (r : Row), c.u ≤ r.updatedAt → (c.after r = true ↔ c.untied r)) ∧
    -- and whatever more is written, where it is untied, still matches and does not move back
    (∀ pieces scope q c k, (∀ s ∈ readsOf (World.run agents events) pieces, ∃ r ∈ s.rows, r.pk = Row.pk k ∧
        answers s.agents scope q r = true) →
      ((readsOf (World.run agents events) pieces).Pairwise fun s s' =>
        ∀ r ∈ s.rows, ∀ r' ∈ s'.rows, r.pk = k.pk → r'.pk = k.pk → r.key ≤ r'.key) →
      (∀ s ∈ (readsOf (World.run agents events) pieces).head?, ∀ r ∈ s.rows, r.pk = k.pk → c.u ≤ r.updatedAt ∧ c.untied r) →
      (readPages scope q (readsOf (World.run agents events) pieces) (some c)).2 = none →
      ∃ r ∈ (readPages scope q (readsOf (World.run agents events) pieces) (some c)).1, r.pk = k.pk) := by
  have hsound : Sound (World.run agents events) := sound_final (sound_start agents) events
  refine ⟨?_, ?_, ?_, ?_, decode_encode, fun c r h => after_of_le h, ?_⟩
  · intro t a before e after heq he r hr hof
    have hkept : (World.run agents events).kept t a := by
      rw [heq]
      unfold World.run
      rw [final_append, final_cons]
      exact kept_final (kept_of_marks (sound_final (sound_start agents) before) he) after
    have hm := hkept.2 r hr hof
    exact ⟨hm, hsound.clean r hr hm⟩
  · intro t a before after heq hdel scope q c r hr
    have hend : (deletedAt (World.run agents events).agents t a).isSome := by
      rw [heq]
      unfold World.run
      rw [final_append]
      exact deleted_final hdel after
    refine Bool.eq_false_iff.2 fun hof => ?_
    obtain ⟨rfl, rfl⟩ := of_iff.1 hof
    rw [list_live hr] at hend
    cases hend
  · refine forall_turns (I := Sound) (P := fun x => ∀ r ∈ x.before.rows, _) (sound_start agents)
      (fun e _ h => sound_step h e) fun e w h r hr => ⟨?_, ?_⟩
    · intro m hm r' hr' hpk
      exact mark_stays h e hr hr' hpk hm
    · exact drops h e hr
  · intro scope q after n hn
    have hlen : (matching (World.run agents events).agents scope q (World.run agents events).rows).length ≤
        (World.run agents events).rows.length := by
      unfold matching
      rw [(Table.orderBy_perm ..).length_eq]
      exact List.length_filter_le ..
    have hall : Keyset.Ascending Row.key (matching (World.run agents events).agents scope q (World.run agents events).rows) :=
      ascending_matching hsound.keys
    have hasc := hall.past (after.map Cursor.key)
    rw [past_matching] at hasc
    refine ⟨_, follow_all hsound.keys after (by omega), hasc, hasc.nodup, fun r => ?_⟩
    rw [List.mem_filter, mem_matching, and_assoc]
    cases after <;> simp
  · intro pieces scope q c k hstays hforward hpast hend
    refine readPages_finds (readsOf_unique hsound pieces) hstays hforward ?_ hend
    intro s hs r hr hpk c' heq
    cases heq
    obtain ⟨hle, hun⟩ := hpast s hs r hr hpk
    exact (after_of_le hle).2 hun

section Tie

def hold (op : String) (h : Ascii op) (status : ApprovalState) (updatedAt : Int) : Row where
  tenantId := "t"
  agentId := "a"
  operationId := op
  raftOrigin := "raft"
  raftServerId := "s"
  raftAgentId := "r"
  status := status
  item := .obj [(js "args", .str (js "text"))]
  createdAt := 1
  expiresAt := none
  updatedAt := updatedAt
  agentDeletedAt := none
  ids := ⟨by decide, by decide, h⟩

def threeHolds : List Event :=
  [.upsert (hold "o1" (by decide) .pending 1), .upsert (hold "o2" (by decide) .pending 5),
    .upsert (hold "o3" (by decide) .pending 9)]

def pairs : Query := ⟨none, none, ⟨2, by decide⟩⟩

def everyHold : Scope := ⟨"raft", none⟩

/-- The second hold's key: where the first page of two ends. -/
def pageEnd : Cursor := ⟨5, "t", "a", "o2", by decide, by decide, by decide⟩

/-- A hold written at the very time of the page's cursor, its id before the cursor's: no later page answers it. -/
theorem tie_skipped :
    (list [] everyHold pairs none (World.run [] threeHolds).rows).next = some pageEnd ∧
    (∃ r ∈ (World.run [] (threeHolds ++ [.upsert (hold "o1" (by decide) .approved 5)])).rows,
      r.operationId = "o1" ∧ pageEnd.u ≤ r.updatedAt ∧ answers [] everyHold pairs r = true) ∧
    (readPages everyHold pairs (readsOf (World.run [] threeHolds) [[.upsert (hold "o1" (by decide) .approved 5)]])
      (some pageEnd)).2 = none ∧
    ∀ r ∈ (readPages everyHold pairs (readsOf (World.run [] threeHolds) [[.upsert (hold "o1" (by decide) .approved 5)]])
      (some pageEnd)).1, r.operationId ≠ "o1" := by
  decide

/-- At a later time the hold is on the next page; and a delete between the two marks it, without text. -/
theorem copies_kept_three :
    (∃ r ∈ (readPages everyHold pairs (readsOf (World.run [] threeHolds) [[.upsert (hold "o1" (by decide) .approved 6)]])
      (some pageEnd)).1, r.pk = ("t", "a", "o1")) ∧
    ∀ r ∈ (World.run [⟨"t", "a", false, none, 0⟩] (threeHolds ++ .deleted "t" "a" 7 8 :: .keepHolds "t" "a" 7 ::
      [.upsert (hold "o1" (by decide) .denied 9)])).rows, r.of "t" "a" = true → r.agentDeletedAt.isSome ∧ Clean r.item := by
  refine ⟨?_, ?_⟩
  · exact (copies_kept [] threeHolds).2.2.2.2.2.2 [[.upsert (hold "o1" (by decide) .approved 6)]] everyHold pairs pageEnd
      (hold "o1" (by decide) .approved 6) (by decide) (List.pairwise_singleton _ _)
      (fun s hs r hr hpk => by
        have hall : ∀ s ∈ (readsOf (World.run [] threeHolds) [[.upsert (hold "o1" (by decide) .approved 6)]]).head?,
            ∀ r ∈ s.rows, r.pk = (hold "o1" (by decide) .approved 6).pk → r.updatedAt = 6 := by decide
        have h6 := hall s hs r hr hpk
        refine ⟨by rw [h6]; decide, fun heq => ?_⟩
        rw [h6] at heq
        cases heq)
      (by decide)
  · exact (copies_kept [⟨"t", "a", false, none, 0⟩] (threeHolds ++ .deleted "t" "a" 7 8 :: .keepHolds "t" "a" 7 ::
      [.upsert (hold "o1" (by decide) .denied 9)])).1 "t" "a" (threeHolds ++ [.deleted "t" "a" 7 8]) (.keepHolds "t" "a" 7)
      [.upsert (hold "o1" (by decide) .denied 9)] rfl ⟨rfl, rfl, by decide⟩

end Tie

end Antiproton.Copies
