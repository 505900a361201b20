import Antiproton.Conversations.Appends
import Antiproton.Conversations.Record

/-!
# Antiproton.Conversations.Whole

The main conversation's history over whole runs of commits, jobs, fresh starts and erases.

* `Inv`: the database holds what the pages are owed, each under its own archive; `step_inv`: every step keeps it, an erase
  where no job of an earlier conversation is filed under the main session.
* `erase_whole_iff`: an erase keeps the history whole exactly there. `jobs_lost`: else the earlier conversation loses its
  job rows to the erase of a later one.
* `history_whole`: the runs.
-/

namespace Antiproton.Conversations

open Js History

variable {B : Type} {c c' : Catalog Str (Row B)} {b : Book B} {p : Page B}

/-! ## What holds between the database and the pages -/

/-- The tables: the current page's under the main session, each earlier one's under its archive. -/
structure Shelved (c : Catalog Str (Row B)) (b : Book B) : Prop where
  roomy : Roomy c
  main : (∀ k, c.table (mainTable k) = none) ∧ b.current.entries = [] ∧ b.current.usage = [] ∨
    Holds c MAIN_SESSION b.current (nextSeq c)
  past : ∀ p ∈ b.past, p.erased = false → ∃ next, Holds c (archive p.generation) p next
  gone : ∀ p ∈ b.past, p.erased = true → ∀ k, c.table (piTable (archive p.generation) k) = none
  free : ∀ g, b.past.length ≤ g → g ≤ MAX_EXACT → ∀ k, c.table (piTable (archive g) k) = none

/-- The jobs a page still has. -/
def Page.filed (p : Page B) : List Str := if p.erased then [] else p.jobs

/-- The job rows are the pages', all under the main session. -/
def Filed (jobs : Option (List JobRow)) (b : Book B) : Prop :=
  jobs.getD [] = (b.pages.flatMap Page.filed).map fun id => ⟨id, MAIN_SESSION⟩

structure Inv (w : World B) : Prop where
  numbered : Numbered w.book
  recorded : Recorded w.db.mains w.book
  shelved : Shelved w.db.catalog w.book
  filed : Filed w.db.jobs w.book

theorem new_inv : Inv (World.new : World B) where
  numbered := ⟨rfl, rfl, fun p hp => by rw [List.mem_singleton.1 hp]; rfl, Nat.zero_le _, nofun, rfl, rfl⟩
  recorded := .inl ⟨rfl, rfl, rfl⟩
  shelved := ⟨roomy_empty, .inl ⟨fun _ => rfl, rfl, rfl⟩, nofun, nofun, fun _ _ _ _ => rfl⟩
  filed := rfl

/-! ## The tables -/

section Tables

theorem archive_known {g : Nat} (h : g ≤ MAX_EXACT) : Known (archive g) := .inr ⟨g, h, rfl⟩

/-- A change beside the archives leaves them what they hold. -/
theorem Shelved.carry (h : Shelved c b) (hn : Numbered b) (hroomy : Roomy c')
    (hothers : ∀ s, Known s → s ≠ MAIN_SESSION → Agree c c' s) {b' : Book B} (hpast : b'.past = b.past)
    (hmain : (∀ k, c'.table (mainTable k) = none) ∧ b'.current.entries = [] ∧ b'.current.usage = [] ∨
      Holds c' MAIN_SESSION b'.current (nextSeq c')) : Shelved c' b' where
  roomy := hroomy
  main := hmain
  past p hp hk := by
    rw [hpast] at hp
    obtain ⟨next, hholds⟩ := h.past p hp hk
    exact ⟨next, hholds.agree (hothers _ (hn.known (mem_pages.2 (.inl hp))) (archive_ne_main _))⟩
  gone p hp hk k := by
    rw [hpast] at hp
    rw [(hothers _ (hn.known (mem_pages.2 (.inl hp))) (archive_ne_main _)).table k]
    exact h.gone p hp hk k
  free g hle hmax k := by
    rw [hpast] at hle
    rw [(hothers _ (archive_known hmax) (archive_ne_main g)).table k]
    exact h.free g hle hmax k

theorem nextSeq_congr (h : c'.table (mainTable .meta_) = c.table (mainTable .meta_)) : nextSeq c' = nextSeq c := by
  rw [nextSeq, h, nextSeq]

/-- Tables just made hold a conversation to which nothing was appended. -/
theorem holds_empty (hmade : ∀ k, c.table (mainTable k) = some [])
    (hindex : ∀ x, c.index (ixName MAIN_SESSION x) = some (piTable MAIN_SESSION x.kind))
    (hentries : p.entries = []) (husage : p.usage = []) : Holds c MAIN_SESSION p (nextSeq c) where
  made k := by rw [show piTable MAIN_SESSION k = mainTable k from rfl, hmade k]; rfl
  indexed := hindex
  entries := by
    rw [show piTable MAIN_SESSION .entries = mainTable .entries from rfl, hmade, hentries]
    exact logged_nil _
  usage := by
    rw [show piTable MAIN_SESSION .usage = mainTable .usage from rfl, hmade, husage]
    exact logged_nil _

/-- The main transcript opened. -/
theorem Shelved.opened (h : Shelved c b) (hn : Numbered b) : ∃ c', ensurePiTables MAIN_SESSION c = some c' ∧
    Shelved c' b ∧ Holds c' MAIN_SESSION b.current (nextSeq c') := by
  obtain ⟨c', hrun, hmade, hroomy, hothers⟩ := ensure_known main_known h.roomy
  have hholds : Holds c' MAIN_SESSION b.current (nextSeq c') := by
    rcases h.main with ⟨hnone, hentries, husage⟩ | hmain
    · refine holds_empty (fun k => ?_) hmade.index hentries husage
      exact (hmade.table k).trans (by rw [show piTable MAIN_SESSION k = mainTable k from rfl, hnone k]; rfl)
    · have hsame : ∀ k, c'.table (piTable MAIN_SESSION k) = c.table (piTable MAIN_SESSION k) := by
        intro k
        obtain ⟨rows, hrows⟩ := Option.isSome_iff_exists.1 (hmain.made k)
        rw [hmade.table k, hrows]
        rfl
      have hseq : nextSeq c' = nextSeq c := nextSeq_congr (hsame .meta_)
      refine ⟨fun k => ?_, hmade.index, ?_, ?_⟩
      · rw [hsame k]
        exact hmain.made k
      · rw [hsame, hseq]
        exact hmain.entries
      · rw [hsame, hseq]
        exact hmain.usage
  exact ⟨c', hrun, h.carry hn hroomy hothers rfl (.inr hholds), hholds⟩

/-- The current conversation's tables moved to its archive. -/
theorem Shelved.moved {new : Str} {now : Int} {cause : MainCause} (h : Shelved c b) (hn : Numbered b)
    (hholds : Holds c MAIN_SESSION b.current (nextSeq c)) (hm : Moved (archive b.past.length) c c') :
    Shelved c' (b.turn false new now cause) where
  roomy := hm.roomy
  main := .inr (holds_empty hm.emptied hm.mainIndex rfl rfl)
  past p hp hk := by
    rcases List.mem_append.1 hp with hp | hp
    · obtain ⟨next, hp'⟩ := h.past p hp hk
      exact ⟨next, hp'.agree (hm.others _ (hn.known (mem_pages.2 (.inl hp))) (archive_ne_main _) (hn.archive_ne hp))⟩
    · rw [List.mem_singleton.1 hp, show (b.current.close false now).generation = b.past.length from hn.now]
      refine ⟨nextSeq c, fun k => ?_, hm.keptIndex, ?_, ?_⟩
      · rw [hm.kept k]
        exact hholds.made k
      · rw [hm.kept]
        exact hholds.entries
      · rw [hm.kept]
        exact hholds.usage
  gone p hp hk k := by
    rcases List.mem_append.1 hp with hp | hp
    · rw [(hm.others _ (hn.known (mem_pages.2 (.inl hp))) (archive_ne_main _) (hn.archive_ne hp)).table k]
      exact h.gone p hp hk k
    · rw [List.mem_singleton.1 hp] at hk
      cases hk
  free g hle hmax k := by
    have hlt : b.past.length < g := by
      rw [Book.turn, List.length_append, List.length_singleton] at hle
      exact hle
    have hne : archive g ≠ archive b.past.length := fun heq => Nat.ne_of_gt hlt (archive_injective heq)
    rw [(hm.others _ (archive_known hmax) (archive_ne_main g) hne).table k]
    exact h.free g hlt.le hmax k

/-- The archive of the conversation that ended dropped. -/
theorem Shelved.dropped {new : Str} {now : Int} {cause : MainCause} (h : Shelved c (b.turn false new now cause))
    (hn : Numbered b) : Shelved (Catalog.dropAll (Kind.all.map (piTable (archive b.past.length))) c)
      (b.turn true new now cause) := by
  obtain ⟨hroomy, hgone, hothers⟩ := dropAll_known (archive_known hn.bounded) h.roomy
  have hmain := hothers _ main_known (archive_ne_main b.past.length).symm
  have hother : ∀ p ∈ b.past, Agree c (Catalog.dropAll (Kind.all.map (piTable (archive b.past.length))) c)
      (archive p.generation) :=
    fun p hp => hothers _ (hn.known (mem_pages.2 (.inl hp))) (hn.archive_ne hp)
  refine ⟨hroomy, ?_, fun p hp hk => ?_, fun p hp hk k => ?_, fun g hle hmax k => ?_⟩
  · rcases h.main with ⟨hnone, hrest⟩ | hholds
    · exact .inl ⟨fun k => (hmain.table k).trans (hnone k), hrest⟩
    · refine .inr ?_
      rw [nextSeq_congr (hmain.table .meta_)]
      exact hholds.agree hmain
  · rcases List.mem_append.1 hp with hp | hp
    · obtain ⟨next, hp'⟩ := h.past p (List.mem_append_left _ hp) hk
      exact ⟨next, hp'.agree (hother p hp)⟩
    · rw [List.mem_singleton.1 hp] at hk
      cases hk
  · rcases List.mem_append.1 hp with hp | hp
    · rw [(hother p hp).table k]
      exact h.gone p (List.mem_append_left _ hp) hk k
    · rw [List.mem_singleton.1 hp, show (b.current.close true now).generation = b.past.length from hn.now]
      exact hgone k
  · have hlt : b.past.length < g := by
      rw [Book.turn, List.length_append, List.length_singleton] at hle
      exact hle
    have hne : archive g ≠ archive b.past.length := fun heq => Nat.ne_of_gt hlt (archive_injective heq)
    rw [(hothers _ (archive_known hmax) hne).table k]
    exact h.free g (by rw [Book.turn, List.length_append, List.length_singleton]; exact hlt) hmax k

end Tables

/-! ## The calls -/

section Calls

variable {w : World B} (h : Inv w) (now : Int) (cause : MainCause)
include h

/-- The id the next conversation gets. -/
def nextId (w : World B) : Str := mainId (w.book.past.length + 1)

theorem filed_turn : (w.book.turn false (nextId w) now cause).pages.flatMap Page.filed = w.book.pages.flatMap Page.filed := by
  have hclosed : (w.book.current.close false now).filed = w.book.current.filed := by
    simp [Page.filed, Page.close, h.numbered.kept]
  rw [Book.pages, Book.pages, Book.turn]
  simp only [List.flatMap_append, List.flatMap_singleton, hclosed]
  exact List.append_nil _

/-- A fresh start, while a generation has a successor. -/
theorem freshMain_turn (hlt : w.book.past.length < MAX_EXACT) : ∃ db, freshMain w.db now cause =
      some ((w.book.current.id, nextId w), db) ∧ Inv ⟨db, w.book.turn false (nextId w) now cause⟩ ∧
    db.jobs = w.db.jobs ∧ db.mains = some ((w.book.turn false (nextId w) now cause).pages.map Page.row) ∧
    (∀ k, db.catalog.table (mainTable k) = some []) ∧
    ∀ x, db.catalog.index (ixName MAIN_SESSION x) = some (piTable MAIN_SESSION x.kind) := by
  have hn := h.numbered
  obtain ⟨c1, hopen, hshelved, hholds⟩ := h.shelved.opened hn
  have harchive : archivedName w.book.current.id = archive w.book.past.length := by
    rw [hn.archived (current_mem w.book), hn.now]
  obtain ⟨c2, hmove, hmoved⟩ := moveAside_moves (archive_known hn.bounded) (archive_ne_main _) hshelved.roomy
    hholds.made (hshelved.free _ (Nat.le_refl _) hn.bounded)
  have hold := currentMainId_eq hn h.recorded
  have hgen : addOne (lastGeneration (w.db.mains.getD [])) = w.book.past.length + 1 := by
    rw [lastGeneration_eq hn h.recorded, addOne, if_pos hlt]
  have hnew : FIRST_MAIN_ID ++ js "." ++ js (toString (w.book.past.length + 1)) = nextId w := (mainId_succ _).symm
  refine ⟨{ w.db with
      catalog := c2
      mains := some ((w.book.turn false (nextId w) now cause).pages.map Page.row)
      backstop := if cause = .fresh_context then Overflow.clearBackstop w.db.backstop else w.db.backstop },
    ?_, ⟨numbered_turn hn now cause false hlt, .inr rfl, hshelved.moved hn hholds hmoved, ?_⟩, rfl, rfl,
    hmoved.emptied, hmoved.mainIndex⟩
  · rw [freshMain]
    simp only [hopen, Option.bind_some, hold, hgen, harchive, hmove, hnew]
    rw [nextId, recordMain_turn hn h.recorded now cause, Option.map_some]
  · rw [Filed, filed_turn h now cause]
    exact h.filed

/-- Where it has none, the call throws. -/
theorem freshMain_full (hmax : w.book.past.length = MAX_EXACT) : freshMain w.db now cause = none := by
  have hn := h.numbered
  have hgen : addOne (lastGeneration (w.db.mains.getD [])) = w.book.past.length := by
    rw [lastGeneration_eq hn h.recorded, addOne, if_neg (by omega)]
  have hfull := recordMain_full hn h.recorded now cause
  rw [freshMain]
  simp only [currentMainId_eq hn h.recorded, hgen, hfull, Option.map_none, Option.bind_eq_none_iff]
  exact fun _ _ _ _ => trivial

omit h in
theorem filed_session {jobs : Option (List JobRow)} (hf : Filed jobs b) {r : JobRow} (hr : r ∈ jobs.getD []) :
    r.session = MAIN_SESSION := by
  rw [hf] at hr
  obtain ⟨id, -, rfl⟩ := List.mem_map.1 hr
  rfl

omit h in
/-- Every job row is filed under the main session, so deleting those leaves none. -/
theorem delete_jobs {jobs : Option (List JobRow)} (hf : Filed jobs b) :
    (jobs.map (Table.delete (·.session == MAIN_SESSION))).getD [] = [] := by
  cases jobs with
  | none => rfl
  | some rows =>
    refine List.filter_eq_nil_iff.2 fun r hr => ?_
    simp [filed_session hf hr]

omit h in
/-- The row of the conversation that ended loses its pointer to the archive. -/
theorem unlink_row (hn : Numbered b) (new : Str) (hnew : new ≠ b.current.id) :
    Table.update (·.sessionId == b.current.id) (fun r => { r with archivedAs := none })
      ((b.turn false new now cause).pages.map Page.row) = (b.turn true new now cause).pages.map Page.row := by
  have hpast : Table.update (·.sessionId == b.current.id) (fun r => { r with archivedAs := none }) (b.past.map Page.row) =
      b.past.map Page.row := by
    refine Table.update_of_forall_not (Table.one_eq_none.2 fun r hr => ?_)
    obtain ⟨p, hp, rfl⟩ := List.mem_map.1 hr
    exact beq_false_of_ne (hn.id_ne hp)
  have hclosed : Table.update (·.sessionId == b.current.id) (fun r => { r with archivedAs := none })
      [(b.current.close false now).row] = [(b.current.close true now).row] :=
    congrArg (fun r => [r]) (if_pos (beq_self_eq_true b.current.id))
  have hlast : ∀ r : MainRow, r.sessionId = new →
      Table.update (·.sessionId == b.current.id) (fun r => { r with archivedAs := none }) [r] = [r] := by
    intro r hr
    exact congrArg (fun r => [r]) (if_neg (by simpa [hr] using hnew))
  simp only [Book.pages, Book.turn, List.map_append, List.map_singleton]
  rw [Table.update, List.map_append, List.map_append, ← Table.update, ← Table.update, ← Table.update, hpast, hclosed,
    hlast _ rfl]

/-- An erase finds nothing, or ends the current conversation and drops it, or throws as a fresh start does. -/
theorem eraseMain_cases :
    (eraseMain w.db now = some (none, w.db) ∧ w.book.current.entries = [] ∧ w.db.jobs.getD [] = []) ∨
    (w.book.past.length = MAX_EXACT ∧ eraseMain w.db now = none) ∨
    (w.book.past.length < MAX_EXACT ∧ ∃ db, eraseMain w.db now = some (some (w.book.current.id, nextId w), db) ∧
      Numbered (w.book.turn true (nextId w) now .fresh_context) ∧
      Recorded db.mains (w.book.turn true (nextId w) now .fresh_context) ∧
      Shelved db.catalog (w.book.turn true (nextId w) now .fresh_context) ∧ db.jobs.getD [] = [] ∧
      (∀ k, db.catalog.table (mainTable k) = some []) ∧
      ∀ x, db.catalog.index (ixName MAIN_SESSION x) = some (piTable MAIN_SESSION x.kind)) := by
  have hn := h.numbered
  rw [eraseMain]
  simp only []
  split
  · rename_i hnothing
    rw [Bool.and_eq_true_iff, Bool.not_eq_true', Bool.not_eq_true'] at hnothing
    refine .inl ⟨rfl, ?_, ?_⟩
    · rcases h.shelved.main with ⟨-, hentries, -⟩ | hholds
      · exact hentries
      · obtain ⟨rows, hrows, hlog, -⟩ := hholds.entries
        have hempty : rows = [] := by
          have hany := hnothing.1
          rw [show mainTable .entries = piTable MAIN_SESSION .entries from rfl, hrows] at hany
          simpa using hany
        rw [hempty] at hlog
        exact List.map_eq_nil_iff.1 hlog.symm
    · refine List.eq_nil_iff_forall_not_mem.2 fun r hr => ?_
      have hsession := filed_session h.filed hr
      cases hjobs : w.db.jobs with
      | none =>
        rw [hjobs] at hr
        exact List.not_mem_nil hr
      | some rows =>
        rw [hjobs] at hr
        have hany := hnothing.2
        rw [hjobs, Option.any_some, List.any_eq_false] at hany
        exact hany r hr (by simp [hsession])
  · rcases Nat.lt_or_eq_of_le hn.bounded with hlt | hmax
    · obtain ⟨db, hrun, hinv, hjobs, hmains, hmade, hindex⟩ := freshMain_turn h now .fresh_context hlt
      obtain ⟨-, -, hothers⟩ := dropAll_known (archive_known hn.bounded) hinv.shelved.roomy
      have hmain := hothers _ main_known (archive_ne_main w.book.past.length).symm
      have harchive : archivedName w.book.current.id = archive w.book.past.length := by
        rw [hn.archived (current_mem w.book), hn.now]
      have hnew : nextId w ≠ w.book.current.id := by
        rw [hn.ids _ (current_mem w.book), hn.now]
        exact fun heq => absurd (mainId_injective heq) (by omega)
      refine .inr (.inr ⟨hlt, _, by rw [hrun]; rfl, numbered_turn hn now _ true hlt, ?_, ?_, ?_, ?_, ?_⟩)
      · refine .inr ?_
        show db.mains.map _ = _
        rw [hmains, Option.map_some, unlink_row now _ hn _ hnew]
      · show Shelved (Catalog.dropAll (Kind.all.map (piTable (archivedName w.book.current.id))) db.catalog) _
        rw [harchive]
        exact hinv.shelved.dropped hn
      · show (db.jobs.map _).getD [] = []
        exact delete_jobs hinv.filed
      · intro k
        show (Catalog.dropAll (Kind.all.map (piTable (archivedName w.book.current.id))) db.catalog).table _ = _
        rw [harchive]
        exact (hmain.table k).trans (hmade k)
      · intro x
        show (Catalog.dropAll (Kind.all.map (piTable (archivedName w.book.current.id))) db.catalog).index _ = _
        rw [harchive]
        exact (hmain.index x).trans (hindex x)
    · exact .inr (.inl ⟨hmax, by rw [freshMain_full h now _ hmax]; rfl⟩)

end Calls

/-! ## The steps -/

/-- An erase is clear where no job of an earlier conversation, not erased, is filed under the main session. -/
def Clear (w : World B) : Event B → Prop
  | .eraseMain _ => ∀ p ∈ w.book.past, p.erased = false → p.jobs = []
  | _ => True

instance (w : World B) : (e : Event B) → Decidable (Clear w e)
  | .eraseMain _ => inferInstanceAs (Decidable (∀ p ∈ w.book.past, p.erased = false → p.jobs = []))
  | .commit _ | .job _ | .startFreshMain _ _ => isTrue trivial

section Replace

variable {q : Page B}

theorem Numbered.replace (hn : Numbered b) (hg : q.generation = b.current.generation) (hid : q.id = b.current.id)
    (he : q.endedAt = b.current.endedAt) (hk : q.erased = b.current.erased) : Numbered { b with current := q } where
  generations := hn.generations
  now := hg.trans hn.now
  ids p hp := by
    rcases mem_pages.1 hp with h | h
    · exact hn.ids p (mem_pages.2 (.inl h))
    · rw [h]
      show q.id = mainId q.generation
      rw [hg, hid]
      exact hn.ids _ (current_mem b)
  bounded := hn.bounded
  ended := hn.ended
  open_ := he.trans hn.open_
  kept := hk.trans hn.kept

theorem Recorded.replace {mains : Option (List MainRow)} (hr : Recorded mains b) (hrow : q.row = b.current.row) :
    Recorded mains { b with current := q } := by
  rcases hr with ⟨hnone, hpast, hcurrent⟩ | hsome
  · exact .inl ⟨hnone, hpast, hrow.trans hcurrent⟩
  · refine .inr ?_
    rw [hsome, Book.pages, Book.pages, List.map_append, List.map_append, List.map_singleton, List.map_singleton, hrow]

theorem Filed.replace {jobs : Option (List JobRow)} (hf : Filed jobs b) (ids : List Str) (hq : q.filed = b.current.filed ++ ids)
    {jobs' : Option (List JobRow)} (hjobs : jobs'.getD [] = jobs.getD [] ++ ids.map fun id => ⟨id, MAIN_SESSION⟩) :
    Filed jobs' { b with current := q } := by
  rw [Filed, hjobs, show jobs.getD [] = _ from hf]
  simp only [Book.pages, List.flatMap_append, List.flatMap_singleton, hq, List.map_append, List.append_assoc]

end Replace

theorem commit_inv {w : World B} (h : Inv w) (writes : List (Write B)) : Inv (step (.commit writes) w).2 := by
  obtain ⟨c, hopen, hshelved, hholds⟩ := h.shelved.opened h.numbered
  cases hrun : commitNow writes c with
  | none =>
    simp only [step, hopen, hrun]
    exact ⟨h.numbered, h.recorded, hshelved, h.filed⟩
  | some c' =>
    simp only [step, hopen, hrun]
    obtain ⟨hbeside, hholds'⟩ := commit_holds hshelved.roomy hholds hrun
    refine ⟨h.numbered.replace rfl rfl rfl rfl, h.recorded.replace rfl, ?_, ?_⟩
    · exact hshelved.carry h.numbered hbeside.roomy hbeside.others rfl (.inr hholds')
    · have hsame : (w.book.current.append writes).filed = w.book.current.filed ++ [] := (List.append_nil _).symm
      exact h.filed.replace [] hsame (List.append_nil _).symm

/-- The first commit finds no tables, and makes them. -/
example : (step (.commit [.entry (js "e1") 7]) (World.new : World Nat)).1 = .done := by decide +kernel

theorem job_inv {w : World B} (h : Inv w) (id : Str) : Inv (step (.job id) w).2 := by
  obtain ⟨c, hopen, hshelved, hholds⟩ := h.shelved.opened h.numbered
  cases hins : Table.insert (·.id == id) ⟨id, MAIN_SESSION⟩ (w.db.jobs.getD []) with
  | none =>
    simp only [step, startJob, hopen, Option.bind_some, hins, Option.map_none]
    exact h
  | some jobs =>
    simp only [step, startJob, hopen, Option.bind_some, hins, Option.map_some]
    have hjobs : jobs = w.db.jobs.getD [] ++ [⟨id, MAIN_SESSION⟩] := by
      rw [Table.insert] at hins
      split at hins
      · cases hins
      · exact (Option.some.inj hins).symm
    refine ⟨h.numbered.replace rfl rfl rfl rfl, h.recorded.replace rfl, ?_, ?_⟩
    · refine ⟨hshelved.roomy, .inr ?_, hshelved.past, hshelved.gone, hshelved.free⟩
      exact ⟨hholds.made, hholds.indexed, hholds.entries, hholds.usage⟩
    · refine h.filed.replace [id] ?_ hjobs
      simp [Page.filed, h.numbered.kept]

theorem start_inv {w : World B} (h : Inv w) (now : Int) (cause : MainCause) : Inv (step (.startFreshMain now cause) w).2 := by
  rcases Nat.lt_or_eq_of_le h.numbered.bounded with hlt | hmax
  · obtain ⟨db, hrun, hinv, -⟩ := freshMain_turn h now cause hlt
    simp only [step, hrun]
    exact hinv
  · simp only [step, freshMain_full h now cause hmax]
    exact h

/-- With no job of an earlier conversation, an erase leaves the job rows that are owed: none. -/
theorem filed_erased {w : World B} {now : Int} (hclear : Clear w (.eraseMain now)) (new : Str) :
    (w.book.turn true new now .fresh_context).pages.flatMap Page.filed = [] := by
  refine List.flatMap_eq_nil_iff.2 fun p hp => ?_
  rcases mem_pages.1 hp with h | rfl
  · rcases List.mem_append.1 h with h | h
    · rw [Page.filed]
      split
      · rfl
      · rename_i hk
        exact hclear p h (Bool.not_eq_true _ ▸ hk)
    · rw [List.mem_singleton.1 h]
      rfl
  · rfl

theorem erase_inv {w : World B} (h : Inv w) {now : Int} (hclear : Clear w (.eraseMain now)) :
    Inv (step (.eraseMain now) w).2 := by
  rcases eraseMain_cases h now with ⟨hrun, -, -⟩ | ⟨-, hrun⟩ | ⟨-, db, hrun, hn, hr, hs, hjobs, -⟩
  · simp only [step, hrun]
    exact h
  · simp only [step, hrun]
    exact h
  · simp only [step, hrun]
    refine ⟨hn, hr, hs, ?_⟩
    rw [Filed, hjobs, filed_erased hclear]
    rfl

/-- Every step keeps the invariant, an erase where it is clear. -/
theorem step_inv {w : World B} (h : Inv w) (e : Event B) (hclear : Clear w e) : Inv (step e w).2 := by
  cases e with
  | commit writes => exact commit_inv h writes
  | job id => exact job_inv h id
  | startFreshMain now cause => exact start_inv h now cause
  | eraseMain now => exact erase_inv h hclear

/-! ## The laws -/

/-- Every conversation not erased is read as it was appended, no two from one table, and its job rows are there; of an erased
one nothing is left. -/
structure Whole (w : World B) : Prop where
  readable : ∀ p ∈ w.book.pages, p.erased = false → ∃ s, physicalSession w.db p.id = some s ∧
    (readEntries w.db s).map (fun r => (r.key, r.body)) = p.entries.map (fun e => (([], e.1), some e.2)) ∧
    (scanUsage w.db s).map (fun r => (r.key, r.body)) = p.usage.map (fun e => (([], e.1), some e.2))
  disjoint : ∀ p ∈ w.book.pages, ∀ q ∈ w.book.pages, p.id ≠ q.id → ∀ s s', physicalSession w.db p.id = some s →
    physicalSession w.db q.id = some s' → ∀ k k', piTable s k ≠ piTable s' k'
  erased : ∀ p ∈ w.book.pages, p.erased = true → physicalSession w.db p.id = none ∧
    ∀ k, w.db.catalog.table (piTable (archivedName p.id) k) = none
  jobs : w.db.jobs.getD [] = (w.book.pages.flatMap Page.filed).map fun id => ⟨id, MAIN_SESSION⟩

theorem Shelved.read_current (h : Shelved c b) : ∃ next,
    Logged (some ((c.table (mainTable .entries)).getD [])) b.current.entries next ∧
    Logged (some ((c.table (mainTable .usage)).getD [])) b.current.usage next := by
  rcases h.main with ⟨hnone, hentries, husage⟩ | hholds
  · rw [hnone, hnone, hentries, husage]
    exact ⟨0, logged_nil 0, logged_nil 0⟩
  · obtain ⟨rows, hrows, hlog⟩ := hholds.entries
    obtain ⟨rows', hrows', hlog'⟩ := hholds.usage
    rw [show mainTable .entries = piTable MAIN_SESSION .entries from rfl, hrows,
      show mainTable .usage = piTable MAIN_SESSION .usage from rfl, hrows']
    exact ⟨_, ⟨rows, rfl, hlog⟩, ⟨rows', rfl, hlog'⟩⟩

/-- Where a conversation not erased is kept. -/
def Page.session (p : Page B) : Str := if p.endedAt.isSome then archive p.generation else MAIN_SESSION

theorem session_past (hn : Numbered b) (hp : p ∈ b.past) : p.session = archive p.generation := if_pos (hn.ended p hp)

theorem session_current (hn : Numbered b) : b.current.session = MAIN_SESSION := by
  rw [Page.session, hn.open_]
  rfl

theorem session_known (hn : Numbered b) (hp : p ∈ b.pages) : Known p.session := by
  rcases mem_pages.1 hp with hpast | rfl
  · rw [session_past hn hpast]
    exact hn.known hp
  · rw [session_current hn]
    exact main_known

/-- Two conversations are kept apart. -/
theorem session_inj (hn : Numbered b) {q : Page B} (hp : p ∈ b.pages) (hq : q ∈ b.pages) (heq : p.session = q.session) :
    p.id = q.id := by
  rcases mem_pages.1 hp with hpast | rfl
  · rcases mem_pages.1 hq with hqast | rfl
    · rw [session_past hn hpast, session_past hn hqast] at heq
      rw [hn.ids p hp, hn.ids q hq, archive_injective heq]
    · rw [session_past hn hpast, session_current hn] at heq
      exact absurd heq (archive_ne_main _)
  · rcases mem_pages.1 hq with hqast | rfl
    · rw [session_past hn hqast, session_current hn] at heq
      exact absurd heq.symm (archive_ne_main _)
    · rfl

theorem physicalSession_eq {w : World B} (h : Inv w) (hp : p ∈ w.book.pages) (hk : p.erased = false) :
    physicalSession w.db p.id = some p.session := by
  rcases mem_pages.1 hp with hpast | rfl
  · rw [physicalSession_past h.numbered h.recorded hpast hk, session_past h.numbered hpast]
  · rw [physicalSession_current h.numbered h.recorded, session_current h.numbered]

theorem physicalSession_gone {w : World B} (h : Inv w) (hp : p ∈ w.book.pages) (hk : p.erased = true) :
    p ∈ w.book.past ∧ physicalSession w.db p.id = none := by
  rcases mem_pages.1 hp with hpast | rfl
  · exact ⟨hpast, physicalSession_erased h.numbered h.recorded hpast hk⟩
  · rw [h.numbered.kept] at hk
    cases hk

/-- What `physicalSession` names of a conversation is where it is kept. -/
theorem session_of_physical {w : World B} (h : Inv w) (hp : p ∈ w.book.pages) {s : Str}
    (hs : physicalSession w.db p.id = some s) : s = p.session := by
  cases hk : p.erased with
  | true =>
    rw [(physicalSession_gone h hp hk).2] at hs
    cases hs
  | false =>
    rw [physicalSession_eq h hp hk] at hs
    exact (Option.some.inj hs).symm

theorem whole_of_inv {w : World B} (h : Inv w) : Whole w where
  readable p hp hk := by
    refine ⟨p.session, physicalSession_eq h hp hk, ?_⟩
    rcases mem_pages.1 hp with hpast | rfl
    · obtain ⟨next, hholds⟩ := h.shelved.past p hpast hk
      rw [session_past h.numbered hpast]
      exact ⟨hholds.entries.read, hholds.usage.read⟩
    · obtain ⟨next, hentries, husage⟩ := h.shelved.read_current
      rw [session_current h.numbered]
      exact ⟨hentries.read, husage.read⟩
  disjoint p hp q hq hne s s' hs hs' k k' := by
    obtain rfl := session_of_physical h hp hs
    obtain rfl := session_of_physical h hq hs'
    exact piTable_ne (session_known h.numbered hp) (session_known h.numbered hq)
      (fun heq => hne (session_inj h.numbered hp hq heq)) k k'
  erased p hp hk := by
    obtain ⟨hpast, hnone⟩ := physicalSession_gone h hp hk
    refine ⟨hnone, fun k => ?_⟩
    rw [h.numbered.archived hp]
    exact h.shelved.gone p hpast hk k
  jobs := h.filed

/-- An event that may start a conversation, and whether it goes on with the one there is. -/
def Event.asks : Event B → Bool
  | .startFreshMain .. | .eraseMain _ => true
  | _ => false

def Event.continues : Event B → Bool
  | .startFreshMain _ .rebuild => true
  | _ => false

/-- What one call does to the conversations as their readers know them. -/
structure Honest (x : Turn (World B) (Event B) Answer) : Prop where
  stays : (∀ old new, x.answer ≠ .moved old new) → logicalMain x.after.db = logicalMain x.before.db
  moves : ∀ old new, x.answer = .moved old new → x.act.asks = true ∧
    old = currentMainId x.before.db ∧ new = currentMainId x.after.db ∧ new ∉ x.before.book.pages.map (·.id) ∧
    (∀ k, x.after.db.catalog.table (mainTable k) = some []) ∧
    (∀ i, x.after.db.catalog.index (ixName MAIN_SESSION i) = some (piTable MAIN_SESSION i.kind)) ∧
    logicalMain x.after.db = if x.act.continues then
        let before := logicalMain x.before.db
        ⟨before.conversation, before.transcripts ++ [new], before.rebuilds + 1⟩
      else ⟨new, [new], 0⟩
  asked : x.act.asks = true → (∃ old new, x.answer = .moved old new) ∨
    (x.answer = .threw ∧ x.before.book.past.length = MAX_EXACT) ∨
    (x.answer = .nothing ∧ x.before.book.current.entries = [] ∧ x.before.db.jobs.getD [] = [])

/-- What `logicalMain` makes of the pages. -/
theorem logicalMain_eq {db : Db B} (hn : Numbered b) (hr : Recorded db.mains b) :
    logicalMain db = logicalOf (b.pages.map fun p => p.row.session) := by
  rw [logicalMain, mainSessions_eq hn hr]

theorem logical_turn (b : Book B) (erase : Bool) (new : Str) (now : Int) (cause : MainCause) :
    logicalOf ((b.turn erase new now cause).pages.map fun p => p.row.session) =
      logicalOf ((b.pages.map fun p => p.row.session) ++ [⟨new, b.past.length + 1, true, some now, none, some cause⟩]) := by
  refine logicalOf_congr ?_
  simp only [Book.pages, Book.turn, List.map_append, List.map_singleton]
  rfl

/-- A call that leaves the rows of `main_sessions` alone leaves the logical conversation. -/
theorem logicalMain_same {db db' : Db B} (hmains : db'.mains = db.mains) : logicalMain db' = logicalMain db := by
  rw [logicalMain, mainSessions, hmains, logicalMain, mainSessions]

section Honest

variable {w : World B} (h : Inv w)
include h

/-- How the conversation goes on where one ended and another began. -/
theorem logicalMain_turn {db : Db B} {erase : Bool} {now : Int} {cause : MainCause}
    (hn : Numbered (w.book.turn erase (nextId w) now cause)) (hr : Recorded db.mains (w.book.turn erase (nextId w) now cause)) :
    logicalMain db = if cause = .rebuild then
        ⟨(logicalMain w.db).conversation, (logicalMain w.db).transcripts ++ [nextId w], (logicalMain w.db).rebuilds + 1⟩
      else ⟨nextId w, [nextId w], 0⟩ := by
  rw [logicalMain_eq hn hr, logical_turn, logicalMain_eq h.numbered h.recorded]
  split
  · rename_i hcause
    exact logicalOf_rebuild (by simp [Book.pages]) (congrArg some hcause)
  · rename_i hcause
    exact logicalOf_fresh fun heq => hcause (Option.some.inj heq)

theorem nextId_fresh : nextId w ∉ w.book.pages.map (·.id) := by
  intro hmem
  obtain ⟨p, hp, heq⟩ := List.mem_map.1 hmem
  rw [h.numbered.ids p hp] at heq
  have hle := h.numbered.le hp
  rw [mainId_injective heq] at hle
  omega

theorem commit_honest (writes : List (Write B)) : Honest (turn step (.commit writes) w) := by
  have hstays : (step (.commit writes) w).2.db.mains = w.db.mains ∧ ∀ old new, (step (.commit writes) w).1 ≠ .moved old new := by
    obtain ⟨c, hopen, -⟩ := h.shelved.opened h.numbered
    cases hrun : commitNow writes c <;> simp [step, hopen, hrun]
  exact ⟨fun _ => logicalMain_same hstays.1, fun old new hmoved => absurd hmoved (hstays.2 old new), nofun⟩

theorem job_honest (id : Str) : Honest (turn step (.job id) w) := by
  have hstays : (step (.job id) w).2.db.mains = w.db.mains ∧ ∀ old new, (step (.job id) w).1 ≠ .moved old new := by
    obtain ⟨c, hopen, -⟩ := h.shelved.opened h.numbered
    cases hins : Table.insert (·.id == id) ⟨id, MAIN_SESSION⟩ (w.db.jobs.getD []) <;> simp [step, startJob, hopen, hins]
  exact ⟨fun _ => logicalMain_same hstays.1, fun old new hmoved => absurd hmoved (hstays.2 old new), nofun⟩

theorem start_honest (now : Int) (cause : MainCause) : Honest (turn step (.startFreshMain now cause) w) := by
  rcases Nat.lt_or_eq_of_le h.numbered.bounded with hlt | hmax
  · obtain ⟨db, hrun, hinv, -, -, hmade, hindex⟩ := freshMain_turn h now cause hlt
    have hstep : step (.startFreshMain now cause) w =
        (.moved w.book.current.id (nextId w), ⟨db, w.book.turn false (nextId w) now cause⟩) := by
      simp only [step, hrun]
    rw [turn, hstep]
    refine ⟨fun hno => absurd rfl (hno _ _), fun old new hmoved => ?_, fun _ => .inl ⟨_, _, rfl⟩⟩
    cases hmoved
    refine ⟨rfl, (currentMainId_eq h.numbered h.recorded).symm, (currentMainId_eq hinv.numbered hinv.recorded).symm,
      nextId_fresh h, hmade, hindex, ?_⟩
    rw [logicalMain_turn h hinv.numbered hinv.recorded]
    cases cause <;> rfl
  · have hstep : step (.startFreshMain now cause) w = (.threw, w) := by
      simp only [step, freshMain_full h now cause hmax]
    rw [turn, hstep]
    exact ⟨fun _ => rfl, fun _ _ hmoved => Answer.noConfusion hmoved, fun _ => .inr (.inl ⟨rfl, hmax⟩)⟩

theorem erase_honest (now : Int) : Honest (turn step (.eraseMain now) w) := by
  rcases eraseMain_cases h now with ⟨hrun, hentries, hjobs⟩ | ⟨hmax, hrun⟩ | ⟨-, db, hrun, hn, hr, -, -, hmade, hindex⟩
  · have hstep : step (.eraseMain now) w = (.nothing, w) := by simp only [step, hrun]
    rw [turn, hstep]
    exact ⟨fun _ => rfl, fun _ _ hmoved => Answer.noConfusion hmoved, fun _ => .inr (.inr ⟨rfl, hentries, hjobs⟩)⟩
  · have hstep : step (.eraseMain now) w = (.threw, w) := by simp only [step, hrun]
    rw [turn, hstep]
    exact ⟨fun _ => rfl, fun _ _ hmoved => Answer.noConfusion hmoved, fun _ => .inr (.inl ⟨rfl, hmax⟩)⟩
  · have hstep : step (.eraseMain now) w =
        (.moved w.book.current.id (nextId w), ⟨db, w.book.turn true (nextId w) now .fresh_context⟩) := by
      simp only [step, hrun]
    rw [turn, hstep]
    refine ⟨fun hno => absurd rfl (hno _ _), fun old new hmoved => ?_, fun _ => .inl ⟨_, _, rfl⟩⟩
    cases hmoved
    exact ⟨rfl, (currentMainId_eq h.numbered h.recorded).symm, (currentMainId_eq hn hr).symm,
      nextId_fresh h, hmade, hindex, logicalMain_turn h hn hr⟩

theorem step_honest (e : Event B) : Honest (turn step e w) := by
  cases e with
  | commit writes => exact commit_honest h writes
  | job id => exact job_honest h id
  | startFreshMain now cause => exact start_honest h now cause
  | eraseMain now => exact erase_honest h now

/-- An erase that is not clear takes the job rows of an earlier conversation along. -/
theorem erase_whole_iff (now : Int) (hran : (step (.eraseMain now) w).1 ≠ .threw) :
    Whole (step (.eraseMain now) w).2 ↔ Clear w (.eraseMain now) := by
  refine ⟨fun hwhole => ?_, fun hclear => whole_of_inv (erase_inv h hclear)⟩
  rcases eraseMain_cases h now with ⟨-, -, hjobs⟩ | ⟨-, hrun⟩ | ⟨-, db, hrun, -, -, -, hjobs, -⟩
  · -- No job row at all: every conversation's are none.
    intro p hp hk
    have hnil : w.book.pages.flatMap Page.filed = [] := List.map_eq_nil_iff.1 (h.filed.symm.trans hjobs)
    have hpage := List.flatMap_eq_nil_iff.1 hnil p (mem_pages.2 (.inl hp))
    rwa [Page.filed, hk] at hpage
  · exact absurd (by simp only [step, hrun]) hran
  · intro p hp hk
    simp only [step, hrun] at hwhole
    have hnil : (w.book.turn true (nextId w) now .fresh_context).pages.flatMap Page.filed = [] :=
      List.map_eq_nil_iff.1 (hwhole.jobs.symm.trans hjobs)
    have hpage := List.flatMap_eq_nil_iff.1 hnil p (mem_pages.2 (.inl (List.mem_append_left _ hp)))
    rwa [Page.filed, hk] at hpage

end Honest

/-! ## The runs -/

theorem run_inv {events : List (Event B)} (hclear : ∀ x ∈ turns step events World.new, Clear x.before x.act) :
    Inv (final step events World.new) :=
  final_guarded new_inv (fun e _ h hok => step_inv h e hok) hclear

/-- In every run whose erases are clear every conversation's history is whole, every call does what it says, and the next
erase that does not throw keeps the history whole exactly if it is clear too. -/
theorem history_whole (events : List (Event B)) (hclear : ∀ x ∈ turns step events World.new, Clear x.before x.act) :
    Whole (final step events World.new) ∧ (∀ x ∈ turns step events World.new, Honest x) ∧
      ∀ now, (step (.eraseMain now) (final step events World.new)).1 ≠ .threw →
        (Whole (step (.eraseMain now) (final step events World.new)).2 ↔
          Clear (final step events World.new) (.eraseMain now)) := by
  have hinv := run_inv hclear
  refine ⟨whole_of_inv hinv, ?_, fun now hran => erase_whole_iff hinv now hran⟩
  exact forall_turns_where new_inv (fun e _ h hok => step_inv h e hok) (fun e _ h _ => step_honest h e) hclear

/-- An entry, a job, a rebuild, another entry, and an erase once the job is not the earlier conversation's. -/
def kept_run : List (Event Nat) :=
  [.commit [.entry (js "a") 1], .startFreshMain 10 .rebuild, .commit [.entry (js "b") 2], .job (js "mj_1"), .eraseMain 20]

theorem history_whole_kept : Whole (final step kept_run World.new) ∧ (∀ x ∈ turns step kept_run World.new, Honest x) ∧
    ∀ now, (step (.eraseMain now) (final step kept_run World.new)).1 ≠ .threw →
      (Whole (step (.eraseMain now) (final step kept_run World.new)).2 ↔
        Clear (final step kept_run World.new) (.eraseMain now)) :=
  history_whole kept_run (by decide)

/-- A job filed before a rebuild, and the erase of the conversation after it. -/
def lost_run : List (Event Nat) :=
  [.commit [.entry (js "a") 1], .job (js "mj_1"), .startFreshMain 10 .rebuild, .commit [.entry (js "b") 2], .eraseMain 20]

/-- The first conversation is not erased, and its job row is gone with the erase of the second. -/
theorem jobs_lost : ¬Whole (final step lost_run World.new) := by
  intro hwhole
  have hjobs := hwhole.jobs
  revert hjobs
  decide

end Antiproton.Conversations
