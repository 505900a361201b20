import Antiproton.Usage.Hours

/-!
# Antiproton.Usage.Container

Time a mount holds a box that is billed for existing (`src/usage/container.ts`). A pass walks each box's sessions oldest
first against one watermark, which says how far that box has been counted.

* `countBox`: what one session adds to what its box was counted to, and the watermark it leaves.
* `heldLoop_box`: the walk over a report, seen from one box, is the walk over that box's sessions.
* `entries_positive`: no pass writes a quantity that is not above zero.
-/

namespace Antiproton
namespace Usage

open Js

/-- `OWN_KEY_PREFIX` and `payerKey`. -/
def payerKey (key : Str) (own : Bool) : Str := if own then js "own:" ++ key else key

/-- `KEEP_MARKS_MS`. -/
def keepMarksMs : Int := 7 * 86400000

/-- `HeldBox`: one stretch of time a mount held a box. -/
structure HeldBox where
  id : String
  startedAt : ℚ
  endedAt : Option ℚ
  uses : Option ℚ
  credentialRef : Option String
deriving DecidableEq

/-- `HeldMark`. -/
structure HeldMark where
  through : ℚ
  uses : Int
deriving DecidableEq

/-- A session is its box and its start. -/
def HeldBox.session (b : HeldBox) : String × ℚ := (b.id, b.startedAt)

/-- What `MountActivity` says of a box that is alive. -/
structure LiveBox where
  id : String
  startedAt : ℚ
  credentialRef : Option String
deriving DecidableEq

/-- `MountUsage`, of which the meter reads these fields. -/
structure EndedBox where
  id : String
  startedAt : ℚ
  endedAt : ℚ
  uses : Option ℚ
  credentialRef : Option String
deriving DecidableEq

/-- What a mount says it holds and has finished; `unreadable` is zero where the field is absent. -/
structure MountReport where
  live : Option LiveBox
  aside : List LiveBox
  usage : List EndedBox
  unreadable : Nat
deriving DecidableEq

def LiveBox.held (v : LiveBox) : HeldBox := ⟨v.id, v.startedAt, none, none, v.credentialRef⟩

def EndedBox.held (v : EndedBox) : HeldBox := ⟨v.id, v.startedAt, some v.endedAt, v.uses, v.credentialRef⟩

/-- `out.set(session(v), v)`: the later record of a session replaces the earlier, in its place. -/
def setSession (out : List HeldBox) (b : HeldBox) : List HeldBox :=
  Table.upsert (fun b' => b'.session == b.session) b
    (fun b' => { b with id := b'.id, startedAt := b'.startedAt }) out

/-- The boxes a report says are alive: the live one, and those set aside. -/
def MountReport.alive (r : MountReport) : List LiveBox := r.live.toList ++ r.aside

/-- The sessions a report describes, in the order they are set. -/
def MountReport.listed (r : MountReport) : List HeldBox := r.alive.map LiveBox.held ++ r.usage.map EndedBox.held

def boxesOf (r : MountReport) : List HeldBox := r.listed.foldl setSession []

def boxIsOwn (box : HeldBox) (mountOwn : Bool) : Bool :=
  match box.credentialRef with
  | none => mountOwn
  | some ref => ref == "agent"

/-- `Math.max(0, Math.floor(uses ?? 0))`. -/
def heldUses (uses : Option ℚ) : Int := max 0 ⌊uses.getD 0⌋

/-- What one session adds: the parts of its time by hour up to `upTo`, its uses, and the watermark after it. -/
structure Counted where
  parts : List (Int × ℚ)
  upTo : ℚ
  uses : Int
  mark : HeldMark
deriving DecidableEq

/-- One turn of the loop of `heldRows`; `none` where it continues. -/
def countBox (had : Option HeldMark) (box : HeldBox) (now : ℚ) : Option Counted :=
  let upTo := box.endedAt.getD now
  if had.any fun m => decide (upTo < m.through) then none
  else
    -- At or before the start, the session is one nothing has counted yet, and neither have its uses.
    let inside := had.filter fun m => decide (box.startedAt < m.through)
    let start := (inside.map (·.through)).getD box.startedAt
    let counted := (inside.map (·.uses)).getD 0
    let parts := msByHour start upTo
    let total := heldUses box.uses
    let uses := max 0 (total - counted)
    if parts.isEmpty && uses == 0 then none
    else some ⟨parts, upTo, uses, ⟨max upTo ((had.map (·.through)).getD upTo), max total counted⟩⟩

/-- A session and what the loop counts of it. -/
structure HeldEntry where
  box : HeldBox
  counted : Counted
deriving DecidableEq

def secondsRow (who : Who) (key : Str) (part : Int × ℚ) : UsageRow :=
  ⟨part.1, who.tenantId, who.agentId, "sandbox.container", key, some (part.2 / 1000), "seconds"⟩

def execsRow (who : Who) (key : Str) (hour uses : Int) : UsageRow :=
  ⟨hour, who.tenantId, who.agentId, "sandbox.container", key, some uses, "execs"⟩

/-- The rows pushed for a session; its uses go to the hour it was last seen in. -/
def HeldEntry.rows (who : Who) (keyOf : HeldBox → Str) (e : HeldEntry) : List UsageRow :=
  let key := keyOf e.box
  e.counted.parts.map (secondsRow who key) ++
    if e.counted.uses = 0 then []
    else [execsRow who key ((e.counted.parts.getLast?.map (·.1)).getD (hourStart e.counted.upTo)) e.counted.uses]

/-- A watermark of the walk, under its box. -/
structure BoxMark where
  id : String
  mark : HeldMark
deriving DecidableEq

def getMark (id : String) (marks : List BoxMark) : Option HeldMark :=
  (Table.one (fun m => m.id == id) marks).map (·.mark)

def setMark (id : String) (mark : HeldMark) (marks : List BoxMark) : List BoxMark :=
  Table.upsert (fun m => m.id == id) ⟨id, mark⟩ (fun m => { m with mark := mark }) marks

/-- The loop of `heldRows`, from the watermarks it has set so far. -/
def heldLoop (counted : String → Option HeldMark) (now : ℚ) :
    List HeldBox → List BoxMark → List HeldEntry × List BoxMark
  | [], marks => ([], marks)
  | box :: rest, marks =>
    match countBox ((getMark box.id marks).or (counted box.id)) box now with
    | none => heldLoop counted now rest marks
    | some c =>
      let r := heldLoop counted now rest (setMark box.id c.mark marks)
      (⟨box, c⟩ :: r.1, r.2)

/-- `heldRows`, its rows still under the sessions they were pushed for. -/
def heldRows (boxes : List HeldBox) (counted : String → Option HeldMark) (now : ℚ) :
    List HeldEntry × List BoxMark :=
  heldLoop counted now (Table.orderBy (·.startedAt) boxes) []

def heldUnreadableRows (who : Who) (key : Str) (r : MountReport) (now : ℚ) : List UsageRow :=
  if r.unreadable = 0 then []
  else [⟨hourStart now, who.tenantId, who.agentId, "sandbox.container", key, some 1, "unreadable"⟩]

/-- A row of `usage_held`. -/
structure HeldRow where
  boxId : String
  through : Int
  uses : Int
deriving DecidableEq

/-- The tables a pass reads and writes: `usage_held` and the outbox. -/
structure HeldDb where
  held : List HeldRow
  outbox : Outbox
deriving DecidableEq

/-- A mount's report, named by its plugin and marked with whose account the mount's credential is on. -/
structure NamedReport where
  plugin : Str
  report : MountReport
  own : Bool
deriving DecidableEq

/-- The watermarks as a pass loads them. -/
def heldCounted (t : List HeldRow) (id : String) : Option HeldMark :=
  (Table.one (fun r => r.boxId == id) t).map fun r => ⟨r.through, r.uses⟩

/-- `INSERT INTO usage_held … ON CONFLICT(box_id) DO UPDATE`. -/
def storeMark (t : List HeldRow) (m : BoxMark) : List HeldRow :=
  let row : HeldRow := ⟨m.id, mathRound m.mark.through, m.mark.uses⟩
  Table.upsert (fun r => r.boxId == m.id) row (fun r => { r with through := row.through, uses := row.uses }) t

def NamedReport.keyOf (r : NamedReport) (box : HeldBox) : Str := payerKey r.plugin (boxIsOwn box r.own)

/-- The rows a pass appends for one mount. -/
def NamedReport.rows (who : Who) (now : ℚ) (entries : List HeldEntry) (r : NamedReport) : List UsageRow :=
  entries.flatMap (HeldEntry.rows who r.keyOf) ++ heldUnreadableRows who (payerKey r.plugin r.own) r.report now

/-- One turn of the loop of `countHeldTime` over the mounts. -/
def countMount (who : Who) (now : ℚ) (counted : String → Option HeldMark) (db : HeldDb) (r : NamedReport) : HeldDb :=
  let walk := heldRows (boxesOf r.report) counted now
  ⟨walk.2.foldl storeMark db.held, appendUsage (r.rows who now walk.1) db.outbox⟩

/-- What `countHeldTime` answers for a mount: how many rows each key got. -/
def mountLine (who : Who) (now : ℚ) (counted : String → Option HeldMark) (r : NamedReport) : List (Str × Nat) :=
  Ledger.group (·.key) (fun _ => 1) (r.rows who now (heldRows (boxesOf r.report) counted now).1)

/-- Watermarks of boxes no report mentions are forgotten once they are a week old. -/
def dropMarks (now : ℚ) (seen : List String) (counted : String → Option HeldMark) (t : List HeldRow) : List HeldRow :=
  t.filter fun r => !((counted r.boxId).any fun m =>
    !seen.contains r.boxId && decide (m.through < now - keepMarksMs))

def countHeldTime (who : Who) (reports : List NamedReport) (now : ℚ) (db : HeldDb) : List (Str × Nat) × HeldDb :=
  let counted := heldCounted db.held
  let seen := reports.flatMap fun r => (boxesOf r.report).map (·.id)
  let after := reports.foldl (countMount who now counted) db
  (reports.flatMap (mountLine who now counted), { after with held := dropMarks now seen counted after.held })

/-! ## What is written is above zero -/

theorem countBox_positive {had : Option HeldMark} {box : HeldBox} {now : ℚ} {c : Counted}
    (h : countBox had box now = some c) : (∀ part ∈ c.parts, 0 < part.2) ∧ 0 ≤ c.uses := by
  unfold countBox at h
  dsimp only at h
  split at h
  · cases h
  · split at h
    · cases h
    · cases h
      exact ⟨fun part hpart => msByHour_pos hpart, le_max_left ..⟩

theorem heldLoop_positive {counted : String → Option HeldMark} {now : ℚ} {boxes : List HeldBox} {marks : List BoxMark} :
    ∀ e ∈ (heldLoop counted now boxes marks).1, (∀ part ∈ e.counted.parts, 0 < part.2) ∧ 0 ≤ e.counted.uses := by
  induction boxes generalizing marks with
  | nil => simp [heldLoop]
  | cons box rest ih =>
    unfold heldLoop
    split
    · exact ih
    · rename_i c hc
      intro e he
      rcases List.mem_cons.1 he with rfl | he
      · exact countBox_positive hc
      · exact ih e he

/-- Whatever is reported and whatever the clock says, every row a mount is counted by is above zero. -/
theorem entries_positive (who : Who) (now : ℚ) (counted : String → Option HeldMark) (r : NamedReport) :
    ∀ row ∈ r.rows who now (heldRows (boxesOf r.report) counted now).1, ∃ q, row.quantity = some q ∧ 0 < q := by
  intro row hrow
  rcases List.mem_append.1 hrow with hrow | hrow
  · obtain ⟨e, he, hrow⟩ := List.mem_flatMap.1 hrow
    obtain ⟨hparts, huses⟩ := heldLoop_positive e he
    rcases List.mem_append.1 hrow with hrow | hrow
    · obtain ⟨part, hpart, rfl⟩ := List.mem_map.1 hrow
      exact ⟨_, rfl, div_pos (hparts part hpart) (by norm_num)⟩
    · split at hrow
      · cases hrow
      · rename_i hne
        rw [List.mem_singleton.1 hrow]
        exact ⟨_, rfl, by exact_mod_cast lt_of_le_of_ne huses (Ne.symm hne)⟩
  · unfold heldUnreadableRows at hrow
    split at hrow
    · cases hrow
    · rw [List.mem_singleton.1 hrow]
      exact ⟨1, rfl, by norm_num⟩

/-! ## The walk, seen from one box -/

/-- The walk over the sessions of one box: the watermark it leaves, and what it counts. -/
def boxLoop (now : ℚ) : List HeldBox → Option HeldMark → Option HeldMark × List Counted
  | [], m => (m, [])
  | box :: rest, m =>
    match countBox m box now with
    | none => boxLoop now rest m
    | some c =>
      let r := boxLoop now rest (some c.mark)
      (r.1, c :: r.2)

theorem boxLoop_none {now : ℚ} {box : HeldBox} {rest : List HeldBox} {m : Option HeldMark}
    (h : countBox m box now = none) : boxLoop now (box :: rest) m = boxLoop now rest m := by
  rw [boxLoop, h]

theorem boxLoop_some {now : ℚ} {box : HeldBox} {rest : List HeldBox} {m : Option HeldMark} {c : Counted}
    (h : countBox m box now = some c) :
    boxLoop now (box :: rest) m = ((boxLoop now rest (some c.mark)).1, c :: (boxLoop now rest (some c.mark)).2) := by
  rw [boxLoop, h]

@[simp] theorem getMark_setMark (id id' : String) (mark : HeldMark) (marks : List BoxMark) :
    getMark id (setMark id' mark marks) = if id' = id then some mark else getMark id marks := by
  let key := fun m : BoxMark => m.id
  let merge := fun m : BoxMark => { m with mark := mark }
  have h := Table.one_upsert key merge (fun _ => rfl) ⟨id', mark⟩ id marks
  unfold getMark setMark
  rw [h]
  split
  · cases Table.one (fun m => key m == id) marks with
    | none => rfl
    | some m => rfl
  · rfl

theorem unique_setMark (id : String) (mark : HeldMark) {marks : List BoxMark} (h : Table.Unique BoxMark.id marks) :
    Table.Unique BoxMark.id (setMark id mark marks) :=
  Table.unique_upsert h (fun _ h' => beq_iff_eq.2 h') fun _ => rfl

theorem heldCounted_storeMark (id : String) (t : List HeldRow) (m : BoxMark) :
    heldCounted (storeMark t m) id =
      if m.id = id then some ⟨mathRound m.mark.through, m.mark.uses⟩ else heldCounted t id := by
  let key := fun r : HeldRow => r.boxId
  let row : HeldRow := ⟨m.id, mathRound m.mark.through, m.mark.uses⟩
  let merge := fun r : HeldRow => { r with through := row.through, uses := row.uses }
  have h := Table.one_upsert key merge (fun _ => rfl) row id t
  unfold heldCounted storeMark
  rw [h]
  split
  · cases Table.one (fun r => key r == id) t with
    | none => rfl
    | some r => rfl
  · rfl

/-- A watermark as the table keeps it. -/
def HeldMark.stored (m : HeldMark) : HeldMark := ⟨mathRound m.through, m.uses⟩

theorem heldCounted_storeMarks (id : String) {marks : List BoxMark} (hu : Table.Unique BoxMark.id marks)
    (t : List HeldRow) :
    heldCounted (marks.foldl storeMark t) id = ((getMark id marks).map (·.stored)).or (heldCounted t id) := by
  induction marks generalizing t with
  | nil => rfl
  | cons m marks ih =>
    obtain ⟨hnew, hrest⟩ := List.nodup_cons.1 hu
    rw [List.foldl_cons, ih hrest, heldCounted_storeMark]
    by_cases hid : m.id = id
    · have hnone : Table.one (fun m => m.id == id) marks = none := by
        refine Table.one_eq_none.2 fun m' hm' => ?_
        have hne : m'.id ≠ m.id := fun h => hnew (h ▸ List.mem_map_of_mem hm')
        simpa [hid] using hne
      simp [getMark, Table.one, hid, HeldMark.stored]
      rw [show List.find? (fun m => m.id == id) marks = none from hnone]
      rfl
    · simp [getMark, Table.one, hid]

/-- The last watermark that counting set. -/
def lastMark (cs : List Counted) : Option HeldMark := cs.getLast?.map (·.mark)

theorem lastMark_cons (c : Counted) (cs : List Counted) : lastMark (c :: cs) = (lastMark cs).or (some c.mark) := by
  unfold lastMark
  rw [List.getLast?_cons]
  cases cs.getLast? with
  | none => rfl
  | some c' => rfl

theorem boxLoop_mark (now : ℚ) (boxes : List HeldBox) (m : Option HeldMark) :
    (boxLoop now boxes m).1 = (lastMark (boxLoop now boxes m).2).or m := by
  induction boxes generalizing m with
  | nil => rfl
  | cons box rest ih =>
    cases hc : countBox m box now with
    | none =>
      rw [boxLoop_none hc]
      exact ih m
    | some c =>
      rw [boxLoop_some hc, lastMark_cons, ih]
      cases lastMark (boxLoop now rest (some c.mark)).2 with
      | none => rfl
      | some mk => rfl

/-- The walk keeps one watermark a box, and to one box it is the walk over its own sessions. -/
theorem heldLoop_box (counted : String → Option HeldMark) (now : ℚ) (id : String) (boxes : List HeldBox)
    {marks : List BoxMark} (hu : Table.Unique BoxMark.id marks) :
    let walk := heldLoop counted now boxes marks
    let alone := boxLoop now (boxes.filter fun b => b.id == id) ((getMark id marks).or (counted id))
    Table.Unique BoxMark.id walk.2 ∧ getMark id walk.2 = (lastMark alone.2).or (getMark id marks) ∧
      ((walk.1.filter fun e => e.box.id == id).map (·.counted)) = alone.2 := by
  induction boxes generalizing marks with
  | nil => exact ⟨hu, rfl, rfl⟩
  | cons box rest ih =>
    dsimp only
    unfold heldLoop
    by_cases hid : box.id = id
    · subst hid
      rw [List.filter_cons, if_pos (beq_self_eq_true _)]
      unfold boxLoop
      cases hc : countBox ((getMark box.id marks).or (counted box.id)) box now with
      | none => exact ih hu
      | some c =>
        obtain ⟨hunique, hmark, hparts⟩ := ih (unique_setMark box.id c.mark hu)
        rw [getMark_setMark, if_pos rfl, Option.some_or] at hmark hparts
        dsimp only
        refine ⟨hunique, ?_, ?_⟩
        · rw [hmark, lastMark_cons, Option.or_assoc, Option.some_or]
        · rw [List.filter_cons, if_pos (beq_self_eq_true _), List.map_cons, hparts]
    · have hbeq : (box.id == id) = false := by simpa using hid
      rw [List.filter_cons, hbeq]
      cases countBox ((getMark box.id marks).or (counted box.id)) box now with
      | none => exact ih hu
      | some c =>
        obtain ⟨hunique, hmark, hparts⟩ := ih (unique_setMark box.id c.mark hu)
        rw [getMark_setMark, if_neg hid] at hmark hparts
        dsimp only
        refine ⟨hunique, hmark, ?_⟩
        rw [List.filter_cons, hbeq]
        exact hparts

theorem countBox_parts {had : Option HeldMark} {box : HeldBox} {now : ℚ} {c : Counted}
    (h : countBox had box now = some c) : ∃ start stop, c.parts = msByHour start stop := by
  unfold countBox at h
  dsimp only at h
  split at h
  · cases h
  · split at h
    · cases h
    · cases h
      exact ⟨_, _, rfl⟩

theorem heldLoop_hours {counted : String → Option HeldMark} {now : ℚ} {boxes : List HeldBox} {marks : List BoxMark} :
    ∀ e ∈ (heldLoop counted now boxes marks).1, ∀ part ∈ e.counted.parts, hourMs ∣ part.1 := by
  induction boxes generalizing marks with
  | nil => simp [heldLoop]
  | cons box rest ih =>
    unfold heldLoop
    split
    · exact ih
    · rename_i c hc
      intro e he
      rcases List.mem_cons.1 he with rfl | he
      · obtain ⟨start, stop, hparts⟩ := countBox_parts hc
        intro part hpart
        dsimp only at hpart
        rw [hparts] at hpart
        exact hour_of_msByHour (List.mem_map_of_mem hpart)
      · exact ih e he

/-! ## The sessions of a report -/

theorem one_setSession (k : String × ℚ) (out : List HeldBox) (b : HeldBox) :
    Table.one (fun b' => b'.session == k) (setSession out b) =
      if b.session = k then some b else Table.one (fun b' => b'.session == k) out := by
  let merge := fun b' : HeldBox => { b with id := b'.id, startedAt := b'.startedAt }
  have h := Table.one_upsert HeldBox.session merge (fun _ => rfl) b k out
  refine h.trans ?_
  split
  · rename_i hk
    cases hone : Table.one (fun b' => b'.session == k) out with
    | none => rfl
    | some b' =>
      have hfound := Table.one_some hone
      have hsame : b'.session = b.session := (beq_iff_eq.1 hfound).trans hk.symm
      have hid : b'.id = b.id := congrArg Prod.fst hsame
      have hstart : b'.startedAt = b.startedAt := congrArg Prod.snd hsame
      simp [merge, hid, hstart]
  · rfl

/-- The last record of a session is the one kept. -/
theorem one_boxesOf (k : String × ℚ) (r : MountReport) :
    Table.one (fun b => b.session == k) (boxesOf r) = r.listed.reverse.find? fun b => b.session == k := by
  have hfold : ∀ (l out : List HeldBox), Table.one (fun b => b.session == k) (l.foldl setSession out) =
      (l.reverse.find? fun b => b.session == k).or (Table.one (fun b => b.session == k) out) := by
    intro l
    induction l with
    | nil => exact fun out => rfl
    | cons b l ih =>
      intro out
      rw [List.foldl_cons, ih, one_setSession, List.reverse_cons, List.find?_append]
      by_cases hk : b.session = k
      · simp [hk]
      · simp [hk]
  rw [boxesOf, hfold]
  simp

theorem unique_boxesOf (r : MountReport) : Table.Unique HeldBox.session (boxesOf r) := by
  have hfold : ∀ (l out : List HeldBox), Table.Unique HeldBox.session out →
      Table.Unique HeldBox.session (l.foldl setSession out) := by
    intro l
    induction l with
    | nil => exact fun out hu => hu
    | cons b l ih =>
      intro out hu
      exact ih _ (Table.unique_upsert hu (fun _ h' => beq_iff_eq.2 h') fun _ => rfl)
  exact hfold _ _ Table.unique_nil

theorem mem_boxesOf {r : MountReport} {b : HeldBox} (hb : b ∈ boxesOf r) : b ∈ r.listed := by
  have hone : Table.one (fun b' => b'.session == b.session) (boxesOf r) = some b :=
    Table.one_of_mem (unique_boxesOf r) hb (by simp) fun b' hb' => beq_iff_eq.1 hb'
  rw [one_boxesOf] at hone
  exact List.mem_reverse.1 (List.mem_of_find?_eq_some hone)

/-- A session with a record of its end is described by such a record. -/
theorem boxesOf_ended {r : MountReport} {v : EndedBox} (hv : v ∈ r.usage) :
    ∃ v' ∈ r.usage, v'.held.session = v.held.session ∧ v'.held ∈ boxesOf r := by
  obtain ⟨b, hb⟩ : ∃ b, (r.usage.map EndedBox.held).reverse.find? (fun b => b.session == v.held.session) = some b := by
    refine Option.isSome_iff_exists.1 ?_
    rw [List.find?_isSome]
    exact ⟨v.held, by simpa using ⟨v, hv, rfl⟩, by simp⟩
  obtain ⟨v', hv', rfl⟩ : ∃ v' ∈ r.usage, v'.held = b := by simpa using List.mem_of_find?_eq_some hb
  refine ⟨v', hv', by simpa using List.find?_some hb, ?_⟩
  have hone := one_boxesOf v.held.session r
  rw [MountReport.listed, List.reverse_append, List.find?_append, hb, Option.some_or] at hone
  exact Table.one_mem hone

/-- A session that is only said to be alive is described so. -/
theorem boxesOf_live {r : MountReport} {v : LiveBox} (hv : v ∈ r.alive)
    (hno : ∀ w ∈ r.usage, w.held.session ≠ v.held.session) :
    ∃ v' ∈ r.alive, v'.held.session = v.held.session ∧ v'.held ∈ boxesOf r := by
  have hnone : (r.usage.map EndedBox.held).reverse.find? (fun b => b.session == v.held.session) = none := by
    refine List.find?_eq_none.2 fun b hb => ?_
    obtain ⟨w, hw, rfl⟩ : ∃ w ∈ r.usage, w.held = b := by simpa using hb
    simpa using hno w hw
  obtain ⟨b, hb⟩ : ∃ b, (r.alive.map LiveBox.held).reverse.find? (fun b => b.session == v.held.session) = some b := by
    refine Option.isSome_iff_exists.1 ?_
    rw [List.find?_isSome]
    exact ⟨v.held, by simpa using ⟨v, hv, rfl⟩, by simp⟩
  obtain ⟨v', hv', rfl⟩ : ∃ v' ∈ r.alive, v'.held = b := by simpa using List.mem_of_find?_eq_some hb
  refine ⟨v', hv', by simpa using List.find?_some hb, ?_⟩
  have hone := one_boxesOf v.held.session r
  rw [MountReport.listed, List.reverse_append, List.find?_append, hnone, Option.none_or, hb] at hone
  exact Table.one_mem hone

end Usage
end Antiproton
