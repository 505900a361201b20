import Antiproton.Store.SeedFiles

/-!
# Antiproton.Store.SeedSeal

The seal of a seeded workspace is final and says what it sealed. `SealInv` is what holds of an agent's files and seal
after every seed write, seal, turn and push, whatever else the agent writes meanwhile.

* `toolConfig_read`: a seal's tool configuration reads back as it was hashed.
* `writeSeedFile_cases`: a write changes both copies of its file, or neither, and the three ways it does not.
* `exec_sealed`: once sealed, an agent's files and its seal never change.
* `seal_final`: the whole of it, over every sequence.
-/

namespace Antiproton

open Js

/-! ## The tool configuration of a seal -/

theorem strings_map (l : List Str) : strings (l.map .str) = some l := by
  induction l with
  | nil => rfl
  | cons s l ih => simp [strings, ih]

/-- A configuration in the one form it is kept in. -/
def ToolConfig.Canonical (t : ToolConfig) : Prop := canonicalToolConfig t = t

theorem canonicalToolConfig_canonical (t : ToolConfig) : (canonicalToolConfig t).Canonical := by
  unfold ToolConfig.Canonical canonicalToolConfig
  cases t.mounts with
  | none => rfl
  | some mounts =>
    simp only [Option.map_some]
    rw [(List.pairwise_insertionSort (· ≤ ·) mounts).insertionSort_eq]

theorem toolConfigOf_canonical {config : Json} {t : ToolConfig} (h : toolConfigOf config = some t) :
    t.Canonical := by
  unfold toolConfigOf at h
  split at h
  · split at h
    · cases h
      exact canonicalToolConfig_canonical _
    · cases h
  · cases h

/-- The mount list of a configuration as JSON. -/
def mountListJson : Option (List Str) → Json
  | none => .null
  | some mounts => .arr (mounts.map .str)

theorem mountListOf_json (mounts : Option (List Str)) : mountListOf (some (mountListJson mounts)) = some mounts := by
  cases mounts with
  | none => rfl
  | some mounts =>
    show (strings (mounts.map .str)).map some = some (some mounts)
    rw [strings_map]
    rfl

theorem harnessOf_text (harness : HarnessMode) : harnessOf (.ofString harness.text) = some harness := by
  cases harness <;> decide

/-- A configuration written into a seal reads back. -/
theorem toolConfig_read {t : ToolConfig} (h : t.Canonical) :
    toolConfigOf (.obj [(js "toolConfig", t.json)]) = some t := by
  have houter : (Json.obj [(js "toolConfig", t.json)]).field? (js "toolConfig") =
      some (.obj [(js "mounts", mountListJson t.mounts), (js "harness", .ofString t.harness.text)]) := by
    have hjson : t.json = .obj [(js "mounts", mountListJson t.mounts), (js "harness", .ofString t.harness.text)] := by
      unfold ToolConfig.json
      cases t.mounts <;> rfl
    simp [Json.field?, hjson]
  have hmounts (m harness : Json) :
      (Json.obj [(js "mounts", m), (js "harness", harness)]).field? (js "mounts") = some m := by
    simp [Json.field?]
  have hharness (m harness : Json) :
      (Json.obj [(js "mounts", m), (js "harness", harness)]).field? (js "harness") = some harness := by
    simp [Json.field?, show (js "mounts" == js "harness") = false from by decide]
  unfold toolConfigOf
  rw [houter]
  dsimp only
  rw [hmounts, hharness, mountListOf_json, Option.bind_some, harnessOf_text]
  exact congrArg some h

/-! ## What a write does -/

section Write

/-- The row a seal writes. -/
def sealRow (env : SeedEnv) (t g : String) (how : SealHow) (now : Int) (db : Db) : SeedSealRow :=
  ⟨t, g, now, how, manifestSha256 env (listSeedFiles t g db) (readToolConfig t g db), listSeedFiles t g db,
    (readToolConfig t g db).map (·.json)⟩

theorem sealSeedFiles_cases (env : SeedEnv) (t g : String) (how : SealHow) (now : Int) (db : Db) :
    ((readSeal t g db).isSome = true ∧ (sealSeedFiles env t g how now db).2 = db) ∨
    (readSeal t g db = none ∧
      (sealSeedFiles env t g how now db).2 = { db with seedSeal := db.seedSeal ++ [sealRow env t g how now db] }) := by
  unfold sealSeedFiles
  cases readSeal t g db with
  | some s => exact .inl ⟨rfl, rfl⟩
  | none => exact .inr ⟨rfl, rfl⟩

/-- A write is refused as sealed, and then seals an agent that had run; or it is judged, and writes both copies of its
file or neither. -/
theorem writeSeedFile_cases (env : SeedEnv) (t g : String) (w : SeedWrite) (now : Int) (o : AgentObject) :
    ((∃ message, (writeSeedFile env t g w now o).1 = .refused .sealed message) ∧
      ((readSeal t g o.store).isSome = true ∨ (priorActivity o).isSome = true) ∧
      (writeSeedFile env t g w now o).2 =
        o.withStore (sealSeedFiles env t g .priorActivity now o.store).2) ∨
    ((readSeal t g o.store = none ∧ priorActivity o = none) ∧
      (writeSeedFile env t g w now o).1 = (writeUnsealed t g w now o.store).1 ∧
      (writeSeedFile env t g w now o).2 = o.withStore (writeUnsealed t g w now o.store).2) := by
  unfold writeSeedFile
  cases hs : readSeal t g o.store with
  | some s =>
    left
    refine ⟨⟨_, rfl⟩, .inl rfl, ?_⟩
    simp only [sealSeedFiles, hs, AgentObject.withStore]
  | none =>
    cases hp : priorActivity o with
    | some why => exact .inl ⟨⟨_, rfl⟩, .inr rfl, rfl⟩
    | none => exact .inr ⟨⟨rfl, rfl⟩, rfl, rfl⟩

/-- An unsealed write changes nothing, or writes both copies of a file that fits. -/
theorem writeUnsealed_cases (t g : String) (w : SeedWrite) (now : Int) (db : Db) :
    ((writeUnsealed t g w now db).1 ≠ .ok true w.info ∧ (writeUnsealed t g w now db).2 = db) ∨
    ((writeUnsealed t g w now db).1 = .ok true w.info ∧ w.oversized = false ∧
      otherSeedBytes t g w.path db + w.bytes ≤ seedAgentMaxBytes ∧
      (writeUnsealed t g w now db).2 = w.copies t g now db) := by
  unfold writeUnsealed
  split
  · exact .inl ⟨by simp, rfl⟩
  · split
    · exact .inl ⟨by simp, rfl⟩
    · split
      · exact .inl ⟨by simp, rfl⟩
      · rename_i hover
        dsimp only
        split
        · exact .inl ⟨by simp, rfl⟩
        · exact .inr ⟨rfl, by simpa using hover, by omega, rfl⟩

end Write

/-! ## The files of an agent -/

/-- The bytes of an agent's seeded files together. -/
def seedBytes (t g : String) (db : Db) : Nat := ((Table.select (seedFileOf t g) db.seedFiles).map (·.bytes)).sum

/-- The primary key of `seed_files`. -/
def SeedFileRow.slot (r : SeedFileRow) : String × String × String := (r.tenantId, r.agentId, r.path)

theorem seedFileKey_slot {t g path : String} {r : SeedFileRow} :
    seedFileKey t g path r = true ↔ r.slot = (t, g, path) := by
  simp [seedFileKey, SeedFileRow.slot, and_assoc]

theorem seedFileKey_same {t g path : String} (r r' : SeedFileRow) (h : seedFileKey t g path r = true)
    (h' : seedFileKey t g path r' = true) : r.slot = r'.slot :=
  (seedFileKey_slot.1 h).trans (seedFileKey_slot.1 h').symm

/-- The snapshot's row of a write. -/
def SeedWrite.row (w : SeedWrite) (t g : String) (now : Int) : SeedFileRow :=
  ⟨t, g, w.path, w.mode, w.bytes, w.sha256, w.content, w.ref, now⟩

/-- An earlier snapshot replaced. -/
def SeedWrite.replace (w : SeedWrite) (now : Int) (r : SeedFileRow) : SeedFileRow :=
  { r with mode := w.mode, bytes := w.bytes, sha256 := w.sha256, content := w.content, ref := w.ref, seededAt := now }

theorem copies_files (w : SeedWrite) (t g : String) (now : Int) (db : Db) :
    (w.copies t g now db).seedFiles =
      Table.upsert (seedFileKey t g w.path) (w.row t g now) (w.replace now) db.seedFiles := rfl

section Copies

variable {w : SeedWrite} {t g : String} {now : Int} {db : Db}

theorem replace_key (x : String × String × String) (r : SeedFileRow) :
    seedFileKey x.1 x.2.1 x.2.2 (w.replace now r) = seedFileKey x.1 x.2.1 x.2.2 r := rfl

theorem row_key : seedFileKey t g w.path (w.row t g now) = true := by simp [seedFileKey, SeedWrite.row]

/-- After a write the file's snapshot is the write's. -/
theorem copies_snapshot :
    Table.one (seedFileKey t g w.path) (w.copies t g now db).seedFiles = some (w.row t g now) := by
  rw [copies_files, Table.one_upsert_self row_key (replace_key (t, g, w.path))]
  cases h : Table.one (seedFileKey t g w.path) db.seedFiles with
  | none => rfl
  | some r =>
    have hs := seedFileKey_slot.1 (Table.one_some h)
    simp only [SeedFileRow.slot, Prod.mk.injEq] at hs
    simp [SeedWrite.replace, SeedWrite.row, hs]

/-- After a write the file's working copy is the write's. -/
theorem copies_working : ∃ r, Table.one (stateKey t g w.path) (w.copies t g now db).agentState = some r ∧
    r.value = w.working.value ∧ r.ref = w.working.ref ∧ r.bytes = w.working.bytes := by
  let row : StateRow := ⟨t, g, w.path, w.working.value, w.working.ref, w.working.bytes, now⟩
  let merge := fun r : StateRow =>
    { r with value := w.working.value, ref := w.working.ref, bytes := w.working.bytes, updatedAt := now }
  have hkey : stateKey t g w.path row = true := by simp [stateKey, row]
  have hm : ∀ r, stateKey t g w.path (merge r) = stateKey t g w.path r := fun _ => rfl
  have h := Table.one_upsert_self hkey hm db.agentState
  refine ⟨_, h, ?_⟩
  cases Table.one (stateKey t g w.path) db.agentState <;> exact ⟨rfl, rfl, rfl⟩

theorem copies_keyed (h : Table.Unique SeedFileRow.slot db.seedFiles) :
    Table.Unique SeedFileRow.slot (w.copies t g now db).seedFiles :=
  Table.unique_upsert h (fun _ he => seedFileKey_slot.2 he) fun _ => rfl

theorem otherSeedBytes_add (hk : Table.Unique SeedFileRow.slot db.seedFiles) (path : String) :
    otherSeedBytes t g path db +
      ((Table.one (seedFileKey t g path) db.seedFiles).map (·.bytes)).getD 0 = seedBytes t g db := by
  unfold otherSeedBytes seedBytes
  rw [← Table.sum_of_key hk seedFileKey_same (·.bytes), Table.sum_select, Table.sum_select]
  induction db.seedFiles with
  | nil => rfl
  | cons r rows ih =>
    simp only [List.map_cons, List.sum_cons]
    have hr : (if seedFileOf t g r && !(r.path == path) then r.bytes else 0) +
        (if seedFileKey t g path r then r.bytes else 0) = if seedFileOf t g r then r.bytes else 0 := by
      have hkey : seedFileKey t g path r = (seedFileOf t g r && r.path == path) := rfl
      rw [hkey]
      by_cases h : seedFileOf t g r = true <;> by_cases h' : r.path = path <;> simp [h, h']
    omega

/-- A write takes the agent's files to the others' bytes and its own. -/
theorem copies_bytes (hk : Table.Unique SeedFileRow.slot db.seedFiles) :
    seedBytes t g (w.copies t g now db) = otherSeedBytes t g w.path db + w.bytes := by
  let weight := fun r : SeedFileRow => if seedFileOf t g r then r.bytes else 0
  have hof : ∀ r, seedFileKey t g w.path r = true → seedFileOf t g r = true := by
    intro r h
    simp only [seedFileKey, Bool.and_eq_true] at h
    simp only [seedFileOf, Bool.and_eq_true]
    exact h.1
  have hnew : weight (w.row t g now) = w.bytes := by simp [weight, seedFileOf, SeedWrite.row]
  have hreplaced : ∀ r, seedFileKey t g w.path r = true → weight (w.replace now r) = weight (w.row t g now) := by
    intro r h
    have h' := hof r h
    rw [hnew]
    simp only [weight]
    rw [if_pos (show seedFileOf t g (w.replace now r) = true from h')]
    rfl
  have hsum := Table.sum_upsert hk seedFileKey_same hreplaced
  have hrow : ((Table.one (seedFileKey t g w.path) db.seedFiles).map weight).getD 0 =
      ((Table.one (seedFileKey t g w.path) db.seedFiles).map (·.bytes)).getD 0 := by
    cases h : Table.one (seedFileKey t g w.path) db.seedFiles with
    | none => rfl
    | some r => simp [weight, hof r (Table.one_some h)]
  have hothers := otherSeedBytes_add (t := t) (g := g) hk w.path
  rw [hrow, hnew] at hsum
  have hafter : seedBytes t g (w.copies t g now db) = (((w.copies t g now db).seedFiles).map weight).sum :=
    Table.sum_select ..
  have hbefore : seedBytes t g db = (db.seedFiles.map weight).sum := Table.sum_select ..
  rw [copies_files] at hafter
  omega

/-- A write of one agent's file leaves another agent's files alone. -/
theorem copies_other {t' g' : String} (h : ¬(t' = t ∧ g' = g)) :
    Table.select (seedFileOf t' g') (w.copies t g now db).seedFiles = Table.select (seedFileOf t' g') db.seedFiles := by
  rw [copies_files]
  have hkept : ∀ r, seedFileOf t' g' (w.replace now r) = seedFileOf t' g' r := fun _ => rfl
  refine Table.select_upsert_other ?_ hkept (fun r hr => ?_) db.seedFiles
  · rw [Bool.eq_false_iff]
    intro hr
    simp only [seedFileOf, SeedWrite.row, Bool.and_eq_true, beq_iff_eq] at hr
    exact h ⟨hr.1.symm, hr.2.symm⟩
  · rw [Bool.eq_false_iff]
    intro hk
    simp only [seedFileOf, seedFileKey, Bool.and_eq_true, beq_iff_eq] at hr hk
    exact h ⟨hr.1.symm.trans hk.1.1, hr.2.symm.trans hk.1.2⟩

end Copies

/-! ## What holds of every seal -/

/-- The primary key of `seed_seal`. -/
def SeedSealRow.slot (r : SeedSealRow) : String × String := (r.tenantId, r.agentId)

theorem sealKey_slot {t g : String} {r : SeedSealRow} : sealKey t g r = true ↔ r.slot = (t, g) := by
  simp [sealKey, SeedSealRow.slot]

/-- What holds of the files and the seals of every agent. -/
structure SealInv (env : SeedEnv) (db : Db) : Prop where
  filesKeyed : Table.Unique SeedFileRow.slot db.seedFiles
  sealsKeyed : Table.Unique SeedSealRow.slot db.seedSeal
  matching : ∀ t g r, Table.one (sealKey t g) db.seedSeal = some r → listSeedFiles t g db = r.manifest ∧
    r.manifestSha256 = manifestSha256 env r.manifest r.read.toolConfig
  cap : ∀ t g, seedBytes t g db ≤ seedAgentMaxBytes
  inline : ∀ r ∈ db.seedFiles, r.content.all seedInline = true

theorem listSeedFiles_congr {t g : String} {db db' : Db}
    (h : Table.select (seedFileOf t g) db'.seedFiles = Table.select (seedFileOf t g) db.seedFiles) :
    listSeedFiles t g db' = listSeedFiles t g db := by
  unfold listSeedFiles
  rw [h]

theorem seedBytes_congr {t g : String} {db db' : Db}
    (h : Table.select (seedFileOf t g) db'.seedFiles = Table.select (seedFileOf t g) db.seedFiles) :
    seedBytes t g db' = seedBytes t g db := by
  unfold seedBytes
  rw [h]

section Inv

variable {env : SeedEnv} {t g : String} {w : SeedWrite} {now : Int} {how : SealHow} {db : Db} {o : AgentObject}

theorem sealRow_key : sealKey t g (sealRow env t g how now db) = true := by simp [sealKey, sealRow]

theorem sealRow_read : (sealRow env t g how now db).read.toolConfig = readToolConfig t g db := by
  simp only [SeedSealRow.read, sealRow]
  cases h : readToolConfig t g db with
  | none => rfl
  | some c =>
    unfold readToolConfig at h
    obtain ⟨r, _, hr⟩ := Option.bind_eq_some_iff.1 h
    exact toolConfig_read (toolConfigOf_canonical hr)

theorem readSeal_none : readSeal t g db = none ↔ Table.one (sealKey t g) db.seedSeal = none := by
  simp [readSeal]

theorem sealSeedFiles_inv (hinv : SealInv env db) : SealInv env (sealSeedFiles env t g how now db).2 := by
  rcases sealSeedFiles_cases env t g how now db with
    ⟨_, h⟩ | ⟨hs, h⟩
  · rw [h]
    exact hinv
  · rw [h]
    have hnone := readSeal_none.1 hs
    refine ⟨hinv.filesKeyed, ?_, ?_, hinv.cap, hinv.inline⟩
    · have hclash : ∀ r : SeedSealRow, r.slot = (sealRow env t g how now db).slot → sealKey t g r = true :=
        fun r he => sealKey_slot.2 (he.trans (sealKey_slot.1 sealRow_key))
      have hu := Table.unique_insertOrIgnore hinv.sealsKeyed hclash
      rwa [Table.insertOrIgnore, Table.any_eq_false.2 hnone, if_neg Bool.false_ne_true] at hu
    · intro t' g' r hr
      rw [Table.one_append] at hr
      cases hold : Table.one (sealKey t' g') db.seedSeal with
      | some r' =>
        rw [hold, Option.some_or] at hr
        cases hr
        exact hinv.matching t' g' _ hold
      | none =>
        rw [hold, Option.none_or, Table.one, List.find?_singleton] at hr
        split at hr
        · rename_i hk
          cases hr
          have hslot := sealKey_slot.1 hk
          simp only [SeedSealRow.slot, sealRow, Prod.mk.injEq] at hslot
          obtain ⟨rfl, rfl⟩ := hslot
          exact ⟨rfl, by rw [sealRow_read]; rfl⟩
        · cases hr

/-- A write past the seal keeps what holds of every seal. -/
theorem writeUnsealed_inv (hinv : SealInv env db) (hs : readSeal t g db = none) :
    SealInv env (writeUnsealed t g w now db).2 := by
  rcases writeUnsealed_cases t g w now db with ⟨_, h⟩ | ⟨_, hover, hcap, h⟩
  · rw [h]
    exact hinv
  · rw [h]
    refine ⟨copies_keyed hinv.filesKeyed, hinv.sealsKeyed, ?_, ?_, ?_⟩
    · intro t' g' r hr
      have hother : ¬(t' = t ∧ g' = g) := by
        rintro ⟨rfl, rfl⟩
        have hnone := readSeal_none.1 hs
        exact absurd (hnone.symm.trans hr) (by simp)
      rw [listSeedFiles_congr (copies_other hother)]
      exact hinv.matching t' g' r hr
    · intro t' g'
      by_cases hsame : t' = t ∧ g' = g
      · obtain ⟨rfl, rfl⟩ := hsame
        rw [copies_bytes hinv.filesKeyed]
        exact hcap
      · rw [seedBytes_congr (copies_other hsame)]
        exact hinv.cap t' g'
    · have hcontent : w.content.all seedInline = true := by
        simp only [SeedWrite.oversized, Bool.or_eq_false_iff] at hover
        cases hc : w.content with
        | none => rfl
        | some c =>
          rw [hc] at hover
          simpa using hover.1
      intro r hr
      rw [copies_files] at hr
      rcases Table.mem_upsert hr with hr | rfl | ⟨r', _, _, rfl⟩
      · exact hinv.inline r hr
      · exact hcontent
      · exact hcontent

theorem writeSeedFile_inv (hinv : SealInv env o.store) : SealInv env (writeSeedFile env t g w now o).2.store := by
  rcases writeSeedFile_cases env t g w now o with
    ⟨_, _, h⟩ | ⟨⟨hs, _⟩, _, h⟩
  · rw [h]
    exact sealSeedFiles_inv hinv
  · rw [h]
    exact writeUnsealed_inv hinv hs

/-- What a write of an agent's file keeps, from `o`. -/
structure WriteKept (env : SeedEnv) (t g : String) (w : SeedWrite) (now : Int) (o : AgentObject) : Prop where
  /-- The same bytes and mode as the file holds change nothing, not even a time. -/
  again : readSeal t g o.store = none → priorActivity o = none → seedRepeat t g w o.store = true →
    writeSeedFile env t g w now o = (.ok false w.info, o)
  /-- An accepted change wrote the snapshot and the working copy, each within the inline limit. -/
  both : ∀ f, (writeSeedFile env t g w now o).1 = .ok true f →
    Table.one (seedFileKey t g w.path) (writeSeedFile env t g w now o).2.store.seedFiles = some (w.row t g now) ∧
    (∃ r, Table.one (stateKey t g w.path) (writeSeedFile env t g w now o).2.store.agentState = some r ∧
      r.value = w.working.value ∧ r.ref = w.working.ref ∧ r.bytes = w.working.bytes) ∧
    w.content.all seedInline = true ∧ w.working.value.all (fun v => v.stringify.length ≤ stateInlineMax) = true
  /-- Anything else wrote neither. -/
  neither : (∀ f, (writeSeedFile env t g w now o).1 ≠ .ok true f) →
    (writeSeedFile env t g w now o).2.store.seedFiles = o.store.seedFiles ∧
    (writeSeedFile env t g w now o).2.store.agentState = o.store.agentState

theorem sealSeedFiles_rows : (sealSeedFiles env t g how now db).2.seedFiles = db.seedFiles ∧
    (sealSeedFiles env t g how now db).2.agentState = db.agentState := by
  rcases sealSeedFiles_cases env t g how now db with
    ⟨_, h⟩ | ⟨_, h⟩ <;> rw [h] <;> exact ⟨rfl, rfl⟩

theorem writeSeedFile_kept : WriteKept env t g w now o where
  again := by
    intro hs hp hr
    unfold writeSeedFile
    rw [hs, hp]
    simp only [Option.isSome_none, Bool.false_eq_true, if_false, writeUnsealed, hr, if_true]
  both := by
    intro f hf
    rcases writeSeedFile_cases env t g w now o with
      ⟨⟨message, hm⟩, _, _⟩ | ⟨_, h1, h2⟩
    · rw [hm] at hf
      cases hf
    · rcases writeUnsealed_cases t g w now o.store with
        ⟨hne, _⟩ | ⟨_, hover, _, h⟩
      · rw [h1] at hf
        have hinfo : f = w.info := by
          unfold writeUnsealed at hf
          split at hf
          · cases hf
          · split at hf
            · cases hf
            · split at hf
              · cases hf
              · dsimp only at hf
                split at hf <;> cases hf
                rfl
        exact absurd (hinfo ▸ hf) hne
      · rw [h2, AgentObject.withStore_store, h]
        simp only [SeedWrite.oversized, Bool.or_eq_false_iff] at hover
        refine ⟨copies_snapshot, copies_working, ?_, ?_⟩
        · cases hc : w.content with
          | none => rfl
          | some c =>
            rw [hc] at hover
            simpa using hover.1
        · cases hv : w.working.value with
          | none => rfl
          | some v =>
            rw [hv] at hover
            simpa using hover.2
  neither := by
    intro hne
    rcases writeSeedFile_cases env t g w now o with
      ⟨_, _, h⟩ | ⟨_, h1, h2⟩
    · rw [h]
      exact sealSeedFiles_rows
    · rcases writeUnsealed_cases t g w now o.store with ⟨_, h⟩ | ⟨hok, _⟩
      · rw [h2, AgentObject.withStore_store, h]
        exact ⟨rfl, rfl⟩
      · exact absurd (h1.trans hok) (hne _)

end Inv

/-! ## Histories of an agent's object -/

/-- What may happen in an agent's object: seed writes, seals, accepted pushes, what turns write, and its record and
rows rewritten at will. A turn seals as `firstTurn` before its message is written. -/
inductive ObjectOp where
  | write (tenantId agentId : String) (w : SeedWrite)
  | close (tenantId agentId : String) (how : SealHow)
  | push (tenantId agentId hookId : String)
  | entry (type : String)
  | session (endedAt : Option Int)
  | inbound (outcome : String)
  | record (agents : List AgentRow)
  | rows (agentState : List StateRow)

/-- One operation: what a seed write answers, and the object after. -/
def ObjectOp.exec (env : SeedEnv) (now : Int) (op : ObjectOp) (o : AgentObject) :
    Option SeedStoreResult × AgentObject :=
  match op with
  | write t g w => let r := writeSeedFile env t g w now o; (some r.1, r.2)
  | close t g how => (none, o.withStore (sealSeedFiles env t g how now o.store).2)
  | push t g hookId =>
    let sealed := o.withStore (sealSeedFiles env t g .firstInbound now o.store).2
    (none, { sealed with inboundPending := sealed.inboundPending ++ [⟨hookId⟩] })
  | entry type => (none, { o with piEntries := o.piEntries ++ [⟨type⟩] })
  | session endedAt => (none, { o with mainSessions := o.mainSessions ++ [⟨endedAt⟩] })
  | inbound outcome => (none, { o with inboundEvents := o.inboundEvents ++ [⟨outcome⟩] })
  | record agents => (none, o.withStore { o.store with agents := agents })
  | rows agentState => (none, o.withStore { o.store with agentState := agentState })

namespace ObjectOp

def run (env : SeedEnv) (ops : List (Int × ObjectOp)) (o : AgentObject) : AgentObject :=
  ops.foldl (fun o op => (op.2.exec env op.1 o).2) o

section Exec

variable {env : SeedEnv} {now : Int} {op : ObjectOp} {o : AgentObject}

theorem exec_inv (hinv : SealInv env o.store) : SealInv env (op.exec env now o).2.store := by
  cases op with
  | write t g w => exact writeSeedFile_inv hinv
  | close t g how => exact sealSeedFiles_inv hinv
  | push t g hookId => exact sealSeedFiles_inv hinv
  | entry | session | inbound => exact hinv
  | record | rows => exact ⟨hinv.filesKeyed, hinv.sealsKeyed, hinv.matching, hinv.cap, hinv.inline⟩

theorem seal_kept {t g t' g' : String} {how : SealHow} {db : Db} {r : SeedSealRow}
    (h : Table.one (sealKey t g) db.seedSeal = some r) :
    Table.one (sealKey t g) (sealSeedFiles env t' g' how now db).2.seedSeal = some r := by
  rcases sealSeedFiles_cases env t' g' how now db with
    ⟨_, hs⟩ | ⟨_, hs⟩
  · rw [hs]
    exact h
  · rw [hs, Table.one_append, h]
    rfl

theorem sealed_of_row {t g : String} {db : Db} {r : SeedSealRow} (h : Table.one (sealKey t g) db.seedSeal = some r) :
    (readSeal t g db).isSome = true := by
  rw [readSeal, h]
  rfl

/-- Once an agent is sealed its seal and its files stay as they are. -/
theorem exec_sealed (env : SeedEnv) (now : Int) (op : ObjectOp) {t g : String} {r : SeedSealRow}
    (h : Table.one (sealKey t g) o.store.seedSeal = some r) :
    Table.one (sealKey t g) (op.exec env now o).2.store.seedSeal = some r ∧
    Table.select (seedFileOf t g) (op.exec env now o).2.store.seedFiles =
      Table.select (seedFileOf t g) o.store.seedFiles := by
  cases op with
  | write t' g' w =>
    simp only [exec]
    rcases writeSeedFile_cases env t' g' w now o with
      ⟨_, _, hw⟩ | ⟨⟨hs, _⟩, _, hw⟩
    · rw [hw, AgentObject.withStore_store, sealSeedFiles_rows.1]
      exact ⟨seal_kept h, rfl⟩
    · rw [hw, AgentObject.withStore_store]
      rcases writeUnsealed_cases t' g' w now o.store with
        ⟨_, hu⟩ | ⟨_, _, _, hu⟩
      · rw [hu]
        exact ⟨h, rfl⟩
      · rw [hu]
        refine ⟨h, copies_other ?_⟩
        rintro ⟨rfl, rfl⟩
        rw [readSeal_none.1 hs] at h
        cases h
  | close t' g' how =>
    simp only [exec, AgentObject.withStore_store, sealSeedFiles_rows.1]
    exact ⟨seal_kept h, trivial⟩
  | push t' g' hookId =>
    simp only [exec, AgentObject.withStore_store, sealSeedFiles_rows.1]
    exact ⟨seal_kept h, trivial⟩
  | entry | session | inbound | record | rows => exact ⟨h, rfl⟩

/-- An agent that has run has run. -/
theorem exec_ran (h : (priorActivity o).isSome = true) : (priorActivity (op.exec env now o).2).isSome = true := by
  have hkeep : ∀ o', (∀ e ∈ o.piEntries, e ∈ o'.piEntries) → (∀ e ∈ o.mainSessions, e ∈ o'.mainSessions) →
      (o.inboundPending ≠ [] → o'.inboundPending ≠ []) → (∀ e ∈ o.inboundEvents, e ∈ o'.inboundEvents) →
      (priorActivity o').isSome = true := by
    intro o' he hm hp hi
    unfold priorActivity at h ⊢
    simp only [List.any_eq_true, Bool.or_eq_true, Bool.not_eq_true', List.isEmpty_eq_false_iff] at h ⊢
    split
    · rfl
    · rename_i h1
      split
      · rfl
      · rename_i h2
        split
        · rfl
        · rename_i h3
          rw [if_neg fun ⟨e, hm', hx⟩ => h1 ⟨e, he e hm', hx⟩, if_neg fun ⟨e, hm', hx⟩ => h2 ⟨e, hm e hm', hx⟩,
            if_neg] at h
          · cases h
          · rintro (hpend | ⟨e, hm', hx⟩)
            · exact h3 (.inl (hp hpend))
            · exact h3 (.inr ⟨e, hi e hm', hx⟩)
  cases op with
  | write t g w =>
    simp only [exec]
    rcases writeSeedFile_cases env t g w now o with
      ⟨_, _, hw⟩ | ⟨⟨_, hp⟩, _⟩
    · rw [hw]
      exact h
    · rw [hp] at h
      cases h
  | close t g how => exact h
  | record | rows => exact h
  | push t g hookId => exact hkeep _ (fun _ he => he) (fun _ he => he) (by simp [exec]) (fun _ he => he)
  | entry type => exact hkeep _ (by simp +contextual [exec]) (fun _ he => he) (fun hp => hp) (fun _ he => he)
  | session endedAt => exact hkeep _ (fun _ he => he) (by simp +contextual [exec]) (fun hp => hp) (fun _ he => he)
  | inbound outcome => exact hkeep _ (fun _ he => he) (fun _ he => he) (fun hp => hp) (by simp +contextual [exec])

end Exec

section Run

variable {env : SeedEnv} {ops : List (Int × ObjectOp)} {o : AgentObject}

theorem run_inv (hinv : SealInv env o.store) : SealInv env (run env ops o).store := by
  induction ops generalizing o with
  | nil => exact hinv
  | cons op ops ih => exact ih (exec_inv hinv)

theorem run_sealed {t g : String} {r : SeedSealRow} (h : Table.one (sealKey t g) o.store.seedSeal = some r) :
    Table.one (sealKey t g) (run env ops o).store.seedSeal = some r ∧
    Table.select (seedFileOf t g) (run env ops o).store.seedFiles =
      Table.select (seedFileOf t g) o.store.seedFiles := by
  induction ops generalizing o with
  | nil => exact ⟨h, rfl⟩
  | cons op ops ih =>
    obtain ⟨hseal, hfiles⟩ := exec_sealed env op.1 op.2 h
    obtain ⟨hseal', hfiles'⟩ := ih hseal
    exact ⟨hseal', hfiles'.trans hfiles⟩

theorem run_ran (h : (priorActivity o).isSome = true) : (priorActivity (run env ops o)).isSome = true := by
  induction ops generalizing o with
  | nil => exact h
  | cons op ops ih => exact ih (exec_ran h)

end Run

end ObjectOp

/-- An agent that was sealed, or has run, accepts no write, after anything. -/
theorem refused_after (env : SeedEnv) {o : AgentObject} {t g : String}
    (h : (readSeal t g o.store).isSome = true ∨ (priorActivity o).isSome = true) (later : List (Int × ObjectOp))
    (w : SeedWrite) (now : Int) :
    ∃ message, (writeSeedFile env t g w now (ObjectOp.run env later o)).1 = .refused .sealed message := by
  have hnow : (readSeal t g (ObjectOp.run env later o).store).isSome = true ∨
      (priorActivity (ObjectOp.run env later o)).isSome = true := by
    rcases h with h | h
    · obtain ⟨s, hs⟩ := Option.isSome_iff_exists.1 h
      obtain ⟨r, hr, _⟩ := Option.map_eq_some_iff.1 hs
      exact .inl (ObjectOp.sealed_of_row (ObjectOp.run_sealed hr).1)
    · exact .inr (ObjectOp.run_ran h)
  rcases writeSeedFile_cases env t g w now (ObjectOp.run env later o) with ⟨hm, _⟩ | ⟨⟨hs, hp⟩, _⟩
  · exact hm
  · rw [hs, hp] at hnow
    rcases hnow with h | h <;> cases h

/-- Over every sequence of seed writes, seals, turns and pushes: an agent has at most one seal, which never changes,
freezes its files and says what they were; the files stay within the cap and the inline limit; a write changes both
copies or neither; and an agent that was sealed or has run accepts no write. -/
theorem seal_final (env : SeedEnv) (o₀ : AgentObject) (hoff : o₀.store.seedFiles = [] ∧ o₀.store.seedSeal = [])
    (ops : List (Int × ObjectOp)) :
    let o := ObjectOp.run env ops o₀
    (∀ t g, (Table.select (sealKey t g) o.store.seedSeal).length ≤ 1) ∧
    (∀ t g r, Table.one (sealKey t g) o.store.seedSeal = some r →
      listSeedFiles t g o.store = r.read.manifest ∧
      r.read.manifestSha256 = manifestSha256 env r.read.manifest r.read.toolConfig ∧
      ∀ later, Table.one (sealKey t g) (ObjectOp.run env later o).store.seedSeal = some r ∧
        Table.select (seedFileOf t g) (ObjectOp.run env later o).store.seedFiles =
          Table.select (seedFileOf t g) o.store.seedFiles) ∧
    (∀ t g, seedBytes t g o.store ≤ seedAgentMaxBytes) ∧
    (∀ r ∈ o.store.seedFiles, r.content.all seedInline = true) ∧
    (∀ t g w now, WriteKept env t g w now o) ∧
    ∀ t g, (readSeal t g o.store).isSome = true ∨ (priorActivity o).isSome = true →
      ∀ later w now, ∃ message,
        (writeSeedFile env t g w now (ObjectOp.run env later o)).1 = .refused .sealed message := by
  intro o
  have hinv₀ : SealInv env o₀.store := by
    refine ⟨?_, ?_, ?_, ?_, ?_⟩
    · rw [hoff.1]
      exact Table.unique_nil
    · rw [hoff.2]
      exact Table.unique_nil
    · intro t g r hr
      rw [hoff.2] at hr
      cases hr
    · intro t g
      simp [seedBytes, hoff.1, Table.select]
    · intro r hr
      rw [hoff.1] at hr
      cases hr
  have hinv : SealInv env o.store := ObjectOp.run_inv hinv₀
  refine ⟨?_, ?_, hinv.cap, hinv.inline, fun _ _ _ _ => writeSeedFile_kept, fun _ _ h => refused_after env h⟩
  · intro t g
    cases h : Table.one (sealKey t g) o.store.seedSeal with
    | none =>
      have hnone := Table.one_eq_none.1 h
      rw [Table.select, List.filter_eq_nil_iff.2 fun r hr => by simp [hnone r hr]]
      simp
    | some r =>
      rw [Table.select_of_key hinv.sealsKeyed
        (fun r r' hr hr' => (sealKey_slot.1 hr).trans (sealKey_slot.1 hr').symm) h]
      simp
  · intro t g r hr
    obtain ⟨hmanifest, hhash⟩ := hinv.matching t g r hr
    exact ⟨hmanifest, hhash, fun later => ObjectOp.run_sealed hr⟩

/-- A file seeded, and a push accepted for the agent before its setup is repeated with another text. -/
def evalHistory (env : SeedEnv) : List (Int × ObjectOp) :=
  [(1, .write "acme" "a1" (inlineWrite env "NOTES.md" .writable (js "one") none)), (2, .push "acme" "a1" "hook"),
    (3, .write "acme" "a1" (inlineWrite env "NOTES.md" .writable (js "two") none))]

/-- An object where nothing has happened. -/
def AgentObject.fresh : AgentObject := ⟨Db.empty, [], [], [], []⟩

theorem seal_final_eval :
    ((ObjectOp.run lengthEnv (evalHistory lengthEnv) .fresh).store.seedSeal.map (·.how) = [.firstInbound]) ∧
    ∀ r ∈ (ObjectOp.run lengthEnv (evalHistory lengthEnv) .fresh).store.seedFiles, r.content.all seedInline = true :=
  ⟨by decide, (seal_final lengthEnv .fresh ⟨rfl, rfl⟩ (evalHistory lengthEnv)).2.2.2.1⟩

end Antiproton
