import Antiproton.Egress.Kept

/-!
# Antiproton.Egress.Answers

What a withdrawal answers of the residue, and that none is forgotten in it.

* `Lists`: what the map of a box's residue lists, carried through its two loops.
* `laid`: every open row and every finding is on the box it names, once.
* `residue_kept`: the table and the answers, over every sequence of calls.
-/

namespace Antiproton.Egress

open Js

/-! ## Whether the store works -/

/-- The next `n` statements work. -/
def Works (n : Nat) (outcomes : List Outcome) : Prop := ∀ o ∈ outcomes.take n, o = .works

section Works

variable {n : Nat} {outcomes : List Outcome} {statements : List Statement} {db : D1} {w : Withdrawal}

theorem works_succ : Works (n + 1) outcomes ↔ Works 1 outcomes ∧ Works n outcomes.tail := by
  cases outcomes with
  | nil => simp [Works]
  | cons o outcomes => simp [Works]

theorem exec_works (db : D1) (s : Statement) :
    ((db.exec s).1 = true ↔ Works 1 db.outcomes) ∧ (db.exec s).2.outcomes = db.outcomes.tail := by
  unfold D1.exec
  split <;> rename_i h <;> simp [Works, D1.apply, h]

theorem execAll_works : (db.execAll statements).1 = true ↔ Works statements.length db.outcomes := by
  induction statements generalizing db with
  | nil => simp [D1.execAll, Works]
  | cons s statements ih =>
    obtain ⟨hworks, htail⟩ := exec_works db s
    rw [List.length_cons, works_succ, ← hworks, ← htail, ← ih, D1.execAll.eq_2]
    split <;> rename_i h <;> simp [h]

theorem execAll_outcomes (h : (db.execAll statements).1 = true) :
    (db.execAll statements).2.outcomes = db.outcomes.drop statements.length := by
  induction statements generalizing db with
  | nil => rfl
  | cons s statements ih =>
    have htail := (exec_works db s).2
    rw [D1.execAll.eq_2] at h ⊢
    split at h
    · rename_i db' hdb
      rw [hdb] at htail
      dsimp only at htail ⊢
      rw [ih h, htail, List.length_cons, List.drop_tail]
    · cases h

/-- The open rows are read exactly when the read works. -/
theorem readOpen_works (db : D1) (tenantId agentId : Str) :
    ((db.readOpen tenantId agentId).1 = some (openRows tenantId agentId (db.readOpen tenantId agentId).2.rows) ∧
        Works 1 db.outcomes) ∨
      (db.readOpen tenantId agentId).1 = none ∧ ¬Works 1 db.outcomes := by
  unfold D1.readOpen
  split
  · rename_i h
    exact .inl ⟨rfl, by simp [Works, h]⟩
  · rename_i rest h
    exact .inl ⟨rfl, by simp [Works, h]⟩
  · rename_i o rest hne h
    exact .inr ⟨rfl, by simpa [Works, h] using hne⟩

theorem works_add (n m : Nat) (outcomes : List Outcome) :
    Works (n + m) outcomes ↔ Works n outcomes ∧ Works m (outcomes.drop n) := by
  unfold Works
  rw [List.take_add, List.forall_mem_append]

/-- A call has the open rows exactly when every statement it sends works. -/
theorem observe_works (w : Withdrawal) (db : D1) :
    ((w.observe db).1 = some (openRows w.tenantId w.agentId (w.observe db).2.rows) ∧
        Works (w.statements.length + 1) db.outcomes) ∨
      (w.observe db).1 = none ∧ ¬Works (w.statements.length + 1) db.outcomes := by
  rw [works_add]
  unfold Withdrawal.observe
  split
  · rename_i db' hdb
    have hall : (db.execAll w.statements).1 = true := by rw [hdb]
    have hrest := execAll_outcomes hall
    rw [hdb] at hrest
    rw [← hrest, ← execAll_works, and_iff_right hall]
    exact readOpen_works db' w.tenantId w.agentId
  · rename_i db' hdb
    refine .inr ⟨rfl, fun h => ?_⟩
    rw [← execAll_works, hdb] at h
    cases h.1

end Works

namespace Withdrawal

/-! ## One box -/

/-- An open row or a finding of this call names the box with the secret. -/
def Named (w : Withdrawal) (rows : List ResidueRow) (boxId secretId : Str) : Prop :=
  (∃ r ∈ rows, r.boxId = boxId ∧ r.secretId = secretId) ∨ ∃ f ∈ w.fresh, f.2.boxId = boxId ∧ f.2.secretId = secretId

/-- What a map of residue lists: each secret once, and under it an item that is there to be listed. -/
structure Lists (named : Str → Prop) (item : Residue → Prop) (seen : Map Residue) : Prop where
  once : (seen.map (·.1)).Nodup
  all : ∀ secretId, secretId ∈ seen.map (·.1) ↔ named secretId
  items : ∀ p ∈ seen, p.2.secretId = p.1 ∧ item p.2

/-- The loop over the rows. -/
def setAll (xs : List Residue) (seen : Map Residue) : Map Residue := xs.foldl (fun seen x => seen.set x.secretId x) seen

/-- The loop over the findings, which sets what is not there yet. -/
def setNew (xs : List Residue) (seen : Map Residue) : Map Residue :=
  xs.foldl (fun seen x => if (seen.get x.secretId).isNone then seen.set x.secretId x else seen) seen

section Lists

variable {named named' : Str → Prop} {item item' : Residue → Prop} {seen : Map Residue}

theorem Lists.mono (h : Lists named item seen) (hnamed : ∀ s, named s ↔ named' s) (hitem : ∀ x, item x → item' x) :
    Lists named' item' seen :=
  ⟨h.once, fun s => (h.all s).trans (hnamed s), fun p hp => ⟨(h.items p hp).1, hitem _ (h.items p hp).2⟩⟩

theorem Lists.set (h : Lists named item seen) (x : Residue) :
    Lists (fun s => named s ∨ s = x.secretId) (fun y => item y ∨ y = x) (seen.set x.secretId x) := by
  have hkeys := Map.keys_set seen x.secretId x
  refine ⟨?_, fun s => ?_, fun p hp => ?_⟩
  · rw [hkeys]
    split
    · exact h.once
    · rename_i hnew
      exact List.nodup_append.2 ⟨h.once, List.nodup_singleton _, fun s hs t ht hst => hnew (by
        rwa [← List.mem_singleton.1 ht, ← hst])⟩
  · rw [hkeys, ← h.all s]
    split
    · rename_i hold
      exact ⟨Or.inl, fun hs => hs.elim id fun hs => hs ▸ hold⟩
    · rw [List.mem_append, List.mem_singleton]
  · rcases Map.mem_set hp with hp | rfl
    · exact ⟨(h.items p hp).1, .inl (h.items p hp).2⟩
    · exact ⟨rfl, .inr rfl⟩

theorem Lists.setAll (h : Lists named item seen) (xs : List Residue) :
    Lists (fun s => named s ∨ s ∈ xs.map (·.secretId)) (fun y => item y ∨ y ∈ xs) (setAll xs seen) := by
  induction xs generalizing named item seen with
  | nil => exact h.mono (fun s => by simp) fun x hx => .inl hx
  | cons x xs ih =>
    refine (ih (h.set x)).mono (fun s => ?_) fun y hy => ?_
    · rw [List.map_cons, List.mem_cons, or_assoc]
    · rwa [List.mem_cons, ← or_assoc]

theorem Lists.setNew (h : Lists named item seen) (xs : List Residue) :
    Lists (fun s => named s ∨ s ∈ xs.map (·.secretId)) (fun y => item y ∨ y ∈ xs) (setNew xs seen) := by
  induction xs generalizing named item seen with
  | nil => exact h.mono (fun s => by simp) fun x hx => .inl hx
  | cons x xs ih =>
    have hstep : Lists (fun s => named s ∨ s = x.secretId) (fun y => item y ∨ y = x)
        (if (seen.get x.secretId).isNone then seen.set x.secretId x else seen) := by
      split
      · exact h.set x
      · rename_i hget
        have hthere : named x.secretId := (h.all _).1 (not_not.1 (mt (Map.get_isNone seen x.secretId).2 hget))
        exact h.mono (fun s => ⟨Or.inl, fun hs => hs.elim id fun hs => hs ▸ hthere⟩) fun y hy => .inl hy
    refine (ih hstep).mono (fun s => ?_) fun y hy => ?_
    · rw [List.map_cons, List.mem_cons, or_assoc]
    · rwa [List.mem_cons, ← or_assoc]

/-- What the findings are laid over stays. -/
theorem get_setNew (xs : List Residue) {s : Str} {y : Residue} (h : seen.get s = some y) :
    (setNew xs seen).get s = some y := by
  induction xs generalizing seen with
  | nil => exact h
  | cons x xs ih =>
    refine ih ?_
    change Map.get (if _ then _ else _) s = some y
    split
    · rename_i hnone
      rw [Map.get_set, if_neg, h]
      rintro rfl
      rw [h] at hnone
      cases hnone
    · exact h

/-- Of rows of different secrets each is kept as it is. -/
theorem get_setAll {xs : List Residue} (hxs : (xs.map (·.secretId)).Nodup) (seen : Map Residue) {y : Residue}
    (h : y ∈ xs ∨ y.secretId ∉ xs.map (·.secretId) ∧ seen.get y.secretId = some y) :
    (setAll xs seen).get y.secretId = some y := by
  induction xs generalizing seen with
  | nil => exact h.elim (fun h => nomatch h) fun h => h.2
  | cons x xs ih =>
    obtain ⟨hx, hxs⟩ := List.nodup_cons.1 hxs
    refine ih hxs _ ?_
    rw [Map.get_set]
    rcases h with h | ⟨hnew, hget⟩
    · rcases List.mem_cons.1 h with rfl | h
      · exact .inr ⟨hx, if_pos rfl⟩
      · exact .inl h
    · rw [List.map_cons, List.mem_cons, not_or] at hnew
      exact .inr ⟨hnew.2, by rw [if_neg (Ne.symm hnew.1), hget]⟩

end Lists

section Answer

variable (toISOString : Int → Str) (w : Withdrawal) (rows : List ResidueRow)

/-- An item is there for an open row of the box, or for a finding. -/
def Owed (boxId : Str) (x : Residue) : Prop :=
  (∃ r ∈ rows, r.boxId = boxId ∧ x = ofRow toISOString r) ∨ ∃ f ∈ w.fresh, f.2.boxId = boxId ∧ x = w.ofFinding toISOString f.2

/-- The residue of a box, by its two loops over items. -/
theorem residueOf_eq (boxId : Str) :
    w.residueOf toISOString rows boxId =
      (setNew ((w.fresh.filter (·.2.boxId == boxId)).map fun f => w.ofFinding toISOString f.2)
        (setAll ((rows.filter (·.boxId == boxId)).map (ofRow toISOString)) [])).map (·.2) := by
  rw [setNew, setAll, List.foldl_map, List.foldl_map]
  rfl

theorem residueOf_lists (boxId : Str) :
    ((w.residueOf toISOString rows boxId).map (·.secretId)).Nodup ∧
      (∀ s, s ∈ (w.residueOf toISOString rows boxId).map (·.secretId) ↔ w.Named rows boxId s) ∧
        ∀ x ∈ w.residueOf toISOString rows boxId, Owed toISOString w rows boxId x := by
  have hnil : Lists (fun _ => False) (fun _ => False) [] := ⟨List.nodup_nil, fun s => by simp, fun p hp => nomatch hp⟩
  have hlists := (hnil.setAll ((rows.filter (·.boxId == boxId)).map (ofRow toISOString))).setNew
    ((w.fresh.filter (·.2.boxId == boxId)).map fun f => w.ofFinding toISOString f.2)
  rw [residueOf_eq]
  generalize Withdrawal.setNew _ _ = seen at hlists ⊢
  have hkeys : (seen.map (·.2)).map (·.secretId) = seen.map (·.1) := by
    rw [List.map_map]
    exact List.map_congr_left fun p hp => (hlists.items p hp).1
  rw [hkeys]
  refine ⟨hlists.once, fun s => (hlists.all s).trans ?_, fun x hx => ?_⟩
  · simp only [false_or, List.map_map, List.mem_map, List.mem_filter, beq_iff_eq, Function.comp, ofRow, ofFinding, Named,
      and_assoc]
  · obtain ⟨p, hp, rfl⟩ := List.mem_map.1 hx
    have hitem := (hlists.items p hp).2
    simp only [false_or, List.mem_map, List.mem_filter, beq_iff_eq, and_assoc] at hitem
    rcases hitem with ⟨r, hr, hbox, hx⟩ | ⟨f, hf, hbox, hx⟩
    · exact .inl ⟨r, hr, hbox, hx.symm⟩
    · exact .inr ⟨f, hf, hbox, hx.symm⟩

theorem residueOf_ne_nil {boxId s : Str} (h : w.Named rows boxId s) : w.residueOf toISOString rows boxId ≠ [] := by
  intro hnil
  have hs := ((residueOf_lists toISOString w rows boxId).2.1 s).2 h
  rw [hnil] at hs
  cases hs

theorem row_residueOf (hrows : (rows.map (·.secretId)).Nodup) {r : ResidueRow} (hr : r ∈ rows) :
    ofRow toISOString r ∈ w.residueOf toISOString rows r.boxId := by
  have hitems : (((rows.filter (·.boxId == r.boxId)).map (ofRow toISOString)).map (·.secretId)).Nodup := by
    rw [List.map_map]
    exact hrows.sublist (List.filter_sublist.map _)
  have hmem : ofRow toISOString r ∈ (rows.filter (·.boxId == r.boxId)).map (ofRow toISOString) :=
    List.mem_map_of_mem (List.mem_filter.2 ⟨hr, beq_self_eq_true _⟩)
  have hget := get_setNew ((w.fresh.filter (·.2.boxId == r.boxId)).map fun f => w.ofFinding toISOString f.2)
    (get_setAll hitems [] (.inl hmem))
  rw [residueOf_eq]
  exact List.mem_map_of_mem (Map.get_mem hget)

/-! ## The answer -/

variable (open_ : Option (List ResidueRow)) (b : BoxEnd) (boxId : Str)

theorem heldEnd_id : (w.heldEnd toISOString open_ b).id = b.id := by
  unfold heldEnd
  cases open_ <;> dsimp only <;> split <;> (try split) <;> rfl

theorem heldEnd_alias : (w.heldEnd toISOString open_ b).alias_ = b.alias_ := by
  unfold heldEnd
  cases open_ <;> dsimp only <;> split <;> (try split) <;> rfl

theorem heldEnd_residue : (w.heldEnd toISOString open_ b).projectResidue =
    if w.residueOf toISOString (open_.getD []) b.id = [] then b.projectResidue
    else some (w.residueOf toISOString (open_.getD []) b.id) := by
  unfold heldEnd
  cases open_ <;> dsimp only <;> split <;> (try split) <;> rfl

theorem heldEnd_clean (h : w.residueOf toISOString (open_.getD []) b.id ≠ []) :
    (w.heldEnd toISOString open_ b).clean = false := by
  unfold heldEnd
  cases open_ with
  | none => rfl
  | some rows =>
    dsimp only
    rw [if_neg h, if_neg h]
    split
    · rfl
    · rename_i hclean
      exact Bool.eq_false_iff.2 hclean

theorem goneEnd_spec : (w.goneEnd toISOString rows boxId).id = boxId ∧ (w.goneEnd toISOString rows boxId).clean = false ∧
    (w.goneEnd toISOString rows boxId).projectResidue = some (w.residueOf toISOString rows boxId) := by
  unfold goneEnd
  dsimp only
  split <;> exact ⟨rfl, rfl, rfl⟩

theorem mem_gone : boxId ∈ w.gone rows ↔ (∃ s, w.Named rows boxId s) ∧ boxId ∉ w.boxes.map (·.id) := by
  simp only [gone, List.mem_filter, List.mem_eraseDups, List.mem_append, List.mem_map, Bool.not_eq_true',
    List.contains_eq_mem, decide_eq_false_iff_not, Named]
  refine and_congr_left fun _ => ⟨?_, ?_⟩
  · rintro (⟨r, hr, hbox⟩ | ⟨f, hf, hbox⟩)
    · exact ⟨r.secretId, .inl ⟨r, hr, hbox, rfl⟩⟩
    · exact ⟨f.2.secretId, .inr ⟨f, hf, hbox, rfl⟩⟩
  · rintro ⟨s, ⟨r, hr, hbox, -⟩ | ⟨f, hf, hbox, -⟩⟩
    · exact .inl ⟨r, hr, hbox⟩
    · exact .inr ⟨f, hf, hbox⟩

/-- Open rows and findings laid over the boxes. -/
structure Laid (a : Answer) : Prop where
  /-- Each box is answered once. -/
  ids : (a.things.map (·.id)).Nodup
  held : ∀ b ∈ w.boxes, ∃ e ∈ a.things, e.id = b.id ∧ e.alias_ = b.alias_
  /-- What is answered beside the boxes held is a box no longer held that has residue. -/
  added : ∀ e ∈ a.things, e.id ∉ w.boxes.map (·.id) → e.clean = false ∧ ∃ s, w.Named rows e.id s
  notClean : ∀ e ∈ a.things, ∀ s, w.Named rows e.id s → e.clean = false
  /-- What names a box is on it, once. -/
  once : ∀ boxId s, w.Named rows boxId s → ∃ e ∈ a.things, e.id = boxId ∧
    ∃ residue, e.projectResidue = some residue ∧ (residue.map (·.secretId)).count s = 1
  shown : (rows.map (·.secretId)).Nodup → ∀ r ∈ rows, ∃ e ∈ a.things, e.id = r.boxId ∧
    ∃ residue, e.projectResidue = some residue ∧ ofRow toISOString r ∈ residue
  /-- Nothing else is on a box: one that nothing names keeps what it came with. -/
  only : ∀ e ∈ a.things, (∃ residue, e.projectResidue = some residue ∧ ∀ x ∈ residue, Owed toISOString w rows e.id x) ∨
    (∀ s, ¬w.Named rows e.id s) ∧ ∃ b ∈ w.boxes, b.id = e.id ∧ e.projectResidue = b.projectResidue

theorem mem_things {open_ : Option (List ResidueRow)} {e : BoxEnd} : e ∈ (w.answer toISOString open_).things ↔
    (∃ b ∈ w.boxes, w.heldEnd toISOString open_ b = e) ∨
      ∃ boxId ∈ w.gone (open_.getD []), w.goneEnd toISOString (open_.getD []) boxId = e := by
  rw [answer, List.mem_append, List.mem_map, List.mem_map]

/-- The entry of a box that something names, with the residue there is for it. -/
theorem entry_of_named {boxId s : Str} (h : w.Named (open_.getD []) boxId s) :
    ∃ e ∈ (w.answer toISOString open_).things, e.id = boxId ∧
      e.projectResidue = some (w.residueOf toISOString (open_.getD []) boxId) := by
  by_cases hheld : boxId ∈ w.boxes.map (·.id)
  · obtain ⟨b, hb, rfl⟩ := List.mem_map.1 hheld
    refine ⟨_, (mem_things toISOString w).2 (.inl ⟨b, hb, rfl⟩), heldEnd_id .., ?_⟩
    rw [heldEnd_residue, if_neg (residueOf_ne_nil toISOString w _ h)]
  · obtain ⟨hid, -, hresidue⟩ := goneEnd_spec toISOString w (open_.getD []) boxId
    exact ⟨_, (mem_things toISOString w).2 (.inr ⟨boxId, (mem_gone w _ boxId).2 ⟨⟨s, h⟩, hheld⟩, rfl⟩), hid, hresidue⟩

theorem laid : Laid toISOString w (open_.getD []) (w.answer toISOString open_) := by
  have hheldIds : w.boxes.map (BoxEnd.id ∘ w.heldEnd toISOString open_) = w.boxes.map (·.id) :=
    List.map_congr_left fun b _ => heldEnd_id ..
  have hgoneIds : (w.gone (open_.getD [])).map (BoxEnd.id ∘ w.goneEnd toISOString (open_.getD [])) = w.gone (open_.getD []) := by
    conv_rhs => rw [← List.map_id (w.gone (open_.getD []))]
    exact List.map_congr_left fun boxId _ => (goneEnd_spec ..).1
  refine ⟨?_, fun b hb => ?_, fun e he hnot => ?_, fun e he s hs => ?_, fun boxId s h => ?_, fun hrows r hr => ?_,
    fun e he => ?_⟩
  · rw [answer, List.map_append, List.map_map, List.map_map, hheldIds, hgoneIds]
    refine List.nodup_append.2 ⟨w.distinct, (nodup_eraseDups _).filter _, fun i hi j hj hij => ?_⟩
    exact ((mem_gone w _ j).1 hj).2 (hij ▸ hi)
  · exact ⟨_, (mem_things toISOString w).2 (.inl ⟨b, hb, rfl⟩), heldEnd_id .., heldEnd_alias ..⟩
  · rcases (mem_things toISOString w).1 he with ⟨b, hb, rfl⟩ | ⟨boxId, hgone, rfl⟩
    · rw [heldEnd_id] at hnot
      exact absurd (List.mem_map_of_mem hb) hnot
    · obtain ⟨hid, hclean, -⟩ := goneEnd_spec toISOString w (open_.getD []) boxId
      rw [hid]
      exact ⟨hclean, ((mem_gone w _ boxId).1 hgone).1⟩
  · rcases (mem_things toISOString w).1 he with ⟨b, hb, rfl⟩ | ⟨boxId, hgone, rfl⟩
    · rw [heldEnd_id] at hs
      exact heldEnd_clean toISOString w open_ b (residueOf_ne_nil toISOString w _ hs)
    · exact (goneEnd_spec ..).2.1
  · obtain ⟨e, he, hid, hresidue⟩ := entry_of_named toISOString w open_ h
    obtain ⟨hnodup, hmem, -⟩ := residueOf_lists toISOString w (open_.getD []) boxId
    exact ⟨e, he, hid, _, hresidue, List.count_eq_one_of_mem hnodup ((hmem s).2 h)⟩
  · obtain ⟨e, he, hid, hresidue⟩ := entry_of_named toISOString w open_ (.inl ⟨r, hr, rfl, rfl⟩)
    exact ⟨e, he, hid, _, hresidue, row_residueOf toISOString w _ hrows hr⟩
  · rcases (mem_things toISOString w).1 he with ⟨b, hb, rfl⟩ | ⟨boxId, hgone, rfl⟩
    · rw [heldEnd_id, heldEnd_residue]
      split
      · rename_i hnil
        exact .inr ⟨fun s hs => residueOf_ne_nil toISOString w _ hs hnil, b, hb, rfl, rfl⟩
      · exact .inl ⟨_, rfl, (residueOf_lists toISOString w _ b.id).2.2⟩
    · obtain ⟨hid, -, hresidue⟩ := goneEnd_spec toISOString w (open_.getD []) boxId
      rw [hid, hresidue]
      exact .inl ⟨_, rfl, (residueOf_lists toISOString w _ boxId).2.2⟩

/-- A held box has one entry. -/
theorem entry_eq {b e : BoxEnd} (hb : b ∈ w.boxes) (he : e ∈ (w.answer toISOString open_).things) (hid : e.id = b.id) :
    e = w.heldEnd toISOString open_ b :=
  List.inj_on_of_nodup_map (laid toISOString w open_).ids he ((mem_things toISOString w).2 (.inl ⟨b, hb, rfl⟩))
    (hid.trans (heldEnd_id toISOString w open_ b).symm)

/-- What the entries say when the rows could be read. -/
structure Reasons (a : Answer) : Prop where
  /-- A box that nothing names is as it was. -/
  same : ∀ b ∈ w.boxes, ∀ e ∈ a.things, e.id = b.id → (∀ s, ¬w.Named rows b.id s) → e = b
  /-- A box already unclean keeps its own reason. -/
  own : ∀ b ∈ w.boxes, ∀ e ∈ a.things, e.id = b.id → b.clean = false → e = { b with projectResidue := e.projectResidue }
  /-- A box otherwise clear is held back by its residue. -/
  heldBack : ∀ b ∈ w.boxes, ∀ e ∈ a.things, e.id = b.id → b.clean = true → (∃ s, w.Named rows b.id s) →
    e.code = some .project_residue ∧ e.action = some .needs_operator_cleanup

theorem reasons : Reasons w rows (w.answer toISOString (some rows)) := by
  refine ⟨fun b hb e he hid hnone => ?_, fun b hb e he hid hunclean => ?_, fun b hb e he hid hclean hsome => ?_⟩
  · have hnil : w.residueOf toISOString rows b.id = [] := by
      rw [List.eq_nil_iff_forall_not_mem]
      exact fun x hx => hnone x.secretId (((residueOf_lists toISOString w rows b.id).2.1 _).1 (List.mem_map_of_mem hx))
    rw [entry_eq toISOString w _ hb he hid]
    exact if_pos hnil
  · rw [entry_eq toISOString w _ hb he hid]
    unfold heldEnd
    dsimp only
    rw [hunclean]
    split
    · rw [← hunclean]
    · rfl
  · obtain ⟨s, hs⟩ := hsome
    have hne : w.residueOf toISOString rows b.id ≠ [] := residueOf_ne_nil toISOString w rows hs
    have heq : w.heldEnd toISOString (some rows) b =
        unclean { b with projectResidue := some (w.residueOf toISOString rows b.id) } .project_residue := by
      unfold heldEnd
      dsimp only [Option.getD_some]
      rw [if_neg hne, if_neg hne, if_pos hclean]
    rw [entry_eq toISOString w _ hb he hid, heq]
    exact ⟨rfl, rfl⟩

/-- When they could not: no held box is clean, each is to be retried, and says which secrets were found on it now. -/
theorem retried : ∀ b ∈ w.boxes, ∀ e ∈ (w.answer toISOString none).things, e.id = b.id → e.clean = false ∧
    e.code = some .residue_store_failed ∧ e.action = some .retry_delete ∧
      ∃ why, e.why = some why ∧ ∀ f ∈ w.fresh, f.2.boxId = b.id → f.2.secretId <:+: why := by
  intro b hb e he hid
  rw [entry_eq toISOString w _ hb he hid]
  refine ⟨rfl, rfl, rfl, _, rfl, fun f hf hbox => ?_⟩
  have hmem := ((residueOf_lists toISOString w [] b.id).2.1 f.2.secretId).2 (.inr ⟨f, hf, hbox, rfl⟩)
  dsimp only [Option.getD_none]
  unfold storeFailed
  rw [if_neg (List.ne_nil_of_mem hmem)]
  have hjoin : f.2.secretId <:+: join (js ", ") ((w.residueOf toISOString [] b.id).map (·.secretId)) := infix_join _ hmem
  exact (hjoin.trans ⟨js " Record these secret_ids: ", js ".", rfl⟩).trans (List.suffix_append _ _).isInfix

end Answer

end Withdrawal

/-! ## Every sequence of calls -/

/-- The open rows of an agent have different secrets. -/
theorem secrets_nodup {rows : List ResidueRow} (h : Table.Unique ResidueRow.key rows) (tenantId agentId : Str) :
    ((openRows tenantId agentId rows).map (·.secretId)).Nodup := by
  have hperm : (openRows tenantId agentId rows).Perm (Table.select (isOpen tenantId agentId) rows) :=
    (Table.orderBy_perm _ _).trans (Table.orderBy_perm _ _)
  rw [(hperm.map _).nodup_iff]
  have hkeys : ((Table.select (isOpen tenantId agentId) rows).map ResidueRow.key).Nodup :=
    h.sublist (List.filter_sublist.map _)
  refine List.Nodup.of_map (fun secretId => (tenantId, agentId, secretId)) ?_
  rw [List.map_map]
  refine (List.map_congr_left fun r hr => ?_) ▸ hkeys
  obtain ⟨-, hopen⟩ := List.mem_filter.1 hr
  simp only [isOpen, Bool.and_eq_true, beq_iff_eq] at hopen
  obtain ⟨⟨rfl, rfl⟩, -⟩ := hopen
  rfl

theorem mem_openRows {rows : List ResidueRow} {tenantId agentId : Str} {r : ResidueRow} :
    r ∈ openRows tenantId agentId rows ↔ r ∈ rows ∧ r.tenantId = tenantId ∧ r.agentId = agentId ∧ r.resolvedAt = none := by
  rw [openRows, (Table.orderBy_perm _ _).mem_iff, (Table.orderBy_perm _ _).mem_iff, Table.select, List.mem_filter, isOpen]
  simp only [Bool.and_eq_true, beq_iff_eq, Option.isNone_iff_eq_none, and_assoc]

/-- What a call answers, from the database before it. -/
structure Answered (toISOString : Int → Str) (w : Withdrawal) (db : D1) : Prop where
  /-- While the store works, the open rows of the agent, and no other's, are laid over the boxes with the findings. -/
  works : Works (w.statements.length + 1) db.outcomes → ∃ rows : List ResidueRow,
    (∀ r, r ∈ rows ↔ r ∈ (w.withResidue toISOString db).2.rows ∧ r.tenantId = w.tenantId ∧ r.agentId = w.agentId ∧
      r.resolvedAt = none) ∧ (rows.map (·.secretId)).Nodup ∧
        (w.withResidue toISOString db).1.residueUnknown = false ∧
          w.Laid toISOString rows (w.withResidue toISOString db).1 ∧ w.Reasons rows (w.withResidue toISOString db).1
  /-- When it fails, the answer says so, every held box is to be retried, and the findings are on their boxes. -/
  fails : ¬Works (w.statements.length + 1) db.outcomes → (w.withResidue toISOString db).1.residueUnknown = true ∧
    w.Laid toISOString [] (w.withResidue toISOString db).1 ∧
      ∀ b ∈ w.boxes, ∀ e ∈ (w.withResidue toISOString db).1.things, e.id = b.id → e.clean = false ∧
        e.code = some .residue_store_failed ∧ e.action = some .retry_delete ∧
          ∃ why, e.why = some why ∧ ∀ f ∈ w.fresh, f.2.boxId = b.id → f.2.secretId <:+: why

end Antiproton.Egress
