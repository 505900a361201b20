import Antiproton.Lib.History
import Antiproton.Lib.Offers
import Antiproton.Runtime.ToolsSeen

/-!
# Antiproton.Runtime.ToolsTold

Runs of the tool notices: messages take changes of any conversations, and are written or put back in any order, with
any number on their way at once (`cf/src/runtime.ts`, `say`).

* `Sound`: the record of a conversation is the last list that was not put back, and each of these lists was answered
  against the one before.
* `sound_take`, `sound_settle`, `sound_putBack`: each step keeps it.
* `gains_told`: what a conversation's model has gained, it was told by a message that was written.
-/

namespace Antiproton.ToolsSeen

open Js
open History (splits mem_splits)

/-! ## Messages -/

/-- A take of a change for a message, with its answer. -/
structure Take where
  owner : Str
  conversation : Str
  current : List Str
  header : Str
  answer : Option ToolsChange
deriving DecidableEq

/-- What became of a take: it answered null, or of the message that took its change. A change `returned` was not written
and found the record moved; a change `putBack` was not written either, and its record was undone. -/
inductive Fate where
  | silent
  | flight
  | written
  | returned
  | putBack
deriving DecidableEq

structure World where
  table : List ToolsSeenRow
  log : List (Take × Fate)
deriving DecidableEq

inductive Step where
  | take (owner conversation : Str) (current : List Str) (header : Str)
  | write (i : Nat)
  | giveBack (i : Nat)
deriving DecidableEq

def Take.begun (t : Take) : Take × Fate := (t, if t.answer = none then .silent else .flight)

/-- The default of `quiet`. -/
def noneQuiet (_ : Str) : Bool := false

def World.inFlight (w : World) (i : Nat) : Option (Take × ToolsChange) :=
  (w.log[i]?).bind fun x => if x.2 = .flight then x.1.answer.map fun change => (x.1, change) else none

def World.step : Step → World → Option ToolsChange × World
  | .take owner conversation current header, w =>
    let taken := takeToolsChange w.table owner conversation current header noneQuiet
    (taken.2, ⟨taken.1, w.log ++ [Take.begun ⟨owner, conversation, current, header, taken.2⟩]⟩)
  | .write i, w =>
    match w.inFlight i with
    | none => (none, w)
    | some x => (none, { w with log := w.log.set i (x.1, .written) })
  | .giveBack i, w =>
    match w.inFlight i with
    | none => (none, w)
    | some x =>
      (none, {
        table := returnToolsChange w.table x.1.owner x.1.conversation x.2
        log := w.log.set i (x.1,
          if recordOf w.table x.1.owner x.1.conversation = some x.2.after then .putBack else .returned) })

/-! ## What a conversation was told -/

section Told

variable (owner conversation : Str)

def Take.isOf (t : Take) : Bool := t.owner == owner && t.conversation == conversation

/-- The takes of a conversation. -/
def takes (log : List (Take × Fate)) : List (Take × Fate) := log.filter fun x => x.1.isOf owner conversation

/-- Those that were not put back. -/
def standing (log : List (Take × Fate)) : List (Take × Fate) :=
  (takes owner conversation log).filter fun x => x.2 ≠ .putBack

/-- The names a change tells. -/
def ToolsChange.added (change : ToolsChange) : List Str :=
  (change.before.map fun before => addedNames before change.after noneQuiet).getD []

/-- The notice a take answered names the tool, or counts it. -/
def Take.Tells (t : Take) (n : Str) : Prop := ∃ change ∈ t.answer, NamesOrCounts change.notice change.added n

instance (t : Take) (n : Str) : Decidable (t.Tells n) :=
  inferInstanceAs (Decidable (∃ change ∈ t.answer, NamesOrCounts change.notice change.added n))

/-- With no change on its way and the last take answered null, every name of its list was in the first list, or was told
by a message that was written, and no list that stands has left it out since. -/
def GainsTold (w : World) : Prop :=
  (∀ x ∈ takes owner conversation w.log, x.2 ≠ .flight) →
    ∀ last ∈ (takes owner conversation w.log).getLast?, last.1.answer = none → ∀ n ∈ last.1.current,
      (∀ first ∈ (takes owner conversation w.log).head?, n ∈ first.1.current) ∨
        ∃ s ∈ splits (standing owner conversation w.log), s.2.1.2 = .written ∧ s.2.1.1.Tells n ∧
          ∀ y ∈ s.2.2, n ∈ y.1.current

/-- Between two written messages that tell one name there is a list that stands and leaves it out. -/
def ToldOnce (w : World) : Prop :=
  ∀ s ∈ splits (standing owner conversation w.log), s.2.1.2 = .written → ∀ s' ∈ splits s.2.2, s'.2.1.2 = .written →
    ∀ n, s.2.1.1.Tells n → s'.2.1.1.Tells n → ∃ z ∈ s'.1, n ∉ z.1.current

/-- What a change told that was returned with the record moved is told by a later message that was written, where the
last list has it and no change is on its way. -/
def StillTold (w : World) : Prop :=
  (∀ x ∈ takes owner conversation w.log, x.2 ≠ .flight) →
    ∀ s ∈ splits (standing owner conversation w.log), s.2.1.2 = .returned → ∀ n, s.2.1.1.Tells n →
      (∀ last ∈ (standing owner conversation w.log).getLast?, n ∈ last.1.current) →
        ∃ s' ∈ splits s.2.2, s'.2.1.2 = .written ∧ s'.2.1.1.Tells n

/-- The first message tells nothing. -/
def FirstSilent (w : World) : Prop := ∀ first ∈ (takes owner conversation w.log).head?, first.1.answer = none

/-- Each name told by a change that was returned with the record moved is left out of a later list. -/
def MadeUp (log : List (Take × Fate)) : Prop :=
  ∀ s ∈ splits log, s.2.1.2 = .returned → ∀ change ∈ s.2.1.1.answer, ∀ n ∈ change.added, ∃ y ∈ s.2.2, n ∉ y.1.current

/-- Where a change is returned, its take is the last that stands, and what earlier ones failed to tell is made up for
without it; or the record has moved, and each name it told has been left out of a list since. -/
def Lawful (w : World) : Step → Prop
  | .giveBack i => ∀ x ∈ w.inFlight i, x.1.isOf owner conversation →
    standing owner conversation (w.log.drop (i + 1)) = [] ∧ MadeUp (standing owner conversation (w.log.take i)) ∨
      recordOf w.table owner conversation ≠ some x.2.after ∧
        ∀ n ∈ x.2.added, ∃ y ∈ standing owner conversation (w.log.drop (i + 1)), n ∉ y.1.current
  | _ => True

instance (log : List (Take × Fate)) : Decidable (MadeUp log) :=
  inferInstanceAs (Decidable (∀ s ∈ splits log, s.2.1.2 = .returned → ∀ change ∈ s.2.1.1.answer, ∀ n ∈ change.added,
    ∃ y ∈ s.2.2, n ∉ y.1.current))

instance (w : World) (step : Step) : Decidable (Lawful owner conversation w step) := by
  cases step <;> unfold Lawful <;> infer_instance

/-- Whose record a step may change. -/
def World.isOn (w : World) : Step → Prop
  | .take owner' conversation' _ _ => owner' = owner ∧ conversation' = conversation
  | .write _ => False
  | .giveBack i => ∃ x ∈ w.inFlight i, x.1.isOf owner conversation

end Told

/-! ## Logs -/

section Logs

variable {owner conversation : Str} {log : List (Take × Fate)} {i : Nat} {t : Take} {change : ToolsChange} {f : Fate}

theorem standing_append (log more : List (Take × Fate)) :
    standing owner conversation (log ++ more) = standing owner conversation log ++ standing owner conversation more := by
  simp only [standing, takes, List.filter_append]

theorem standing_other (h : t.isOf owner conversation = false) : standing owner conversation [(t, f)] = [] := by
  simp [standing, takes, h]

theorem standing_putBack : standing owner conversation [(t, .putBack)] = [] := by
  cases h : t.isOf owner conversation <;> simp [standing, takes, h]

theorem standing_self (h : t.isOf owner conversation = true) (hf : f ≠ .putBack) :
    standing owner conversation [(t, f)] = [(t, f)] := by simp [standing, takes, h, hf]

variable (owner conversation) in
/-- The standing takes around one of the log, before and after its fate changes. -/
theorem standing_set (h : log[i]? = some (t, f)) (f' : Fate) :
    standing owner conversation log = standing owner conversation (log.take i) ++
        (standing owner conversation [(t, f)] ++ standing owner conversation (log.drop (i + 1))) ∧
      standing owner conversation (log.set i (t, f')) = standing owner conversation (log.take i) ++
        (standing owner conversation [(t, f')] ++ standing owner conversation (log.drop (i + 1))) := by
  obtain ⟨hold, hnew⟩ := History.set_split h (t, f')
  rw [hnew, ← standing_append, ← standing_append, ← standing_append, ← standing_append, List.singleton_append,
    List.singleton_append, ← hold]
  exact ⟨rfl, rfl⟩

/-- A fate changes no take. -/
theorem set_takes (h : log[i]? = some (t, f)) (f' : Fate) : (log.set i (t, f')).map (·.1) = log.map (·.1) := by
  obtain ⟨hold, hnew⟩ := History.set_split h (t, f')
  rw [hnew]
  conv_rhs => rw [hold]
  simp only [List.map_append, List.map_cons]

theorem inFlight_some {w : World} {x : Take × ToolsChange} (h : w.inFlight i = some x) :
    w.log[i]? = some (x.1, .flight) ∧ x.1.answer = some x.2 := by
  obtain ⟨y, hy, h⟩ := Option.bind_eq_some_iff.1 h
  split at h
  · rename_i hfate
    obtain ⟨change, hchange, rfl⟩ := Option.map_eq_some_iff.1 h
    refine ⟨?_, hchange⟩
    rw [hy, ← hfate]
  · cases h

end Logs

/-! ## What a take answers -/

section Answers

/-- A take was answered against the last list before it. -/
def Answered (prev : Option (Take × Fate)) (x : Take × Fate) : Prop :=
  x.1.answer = (prev.map fun p => listText p.1.current).bind fun before =>
    changeFrom before (listText x.1.current) x.1.header noneQuiet

def Offered (x : Take × Fate) (n : Str) : Prop := n ∈ x.1.current

def TellsOf (x : Take × Fate) (n : Str) : Prop := x.1.Tells n

def Failed (x : Take × Fate) : Prop := x.2 = .returned

theorem changeFrom_some {before after header : Str} {quiet : Str → Bool} {change : ToolsChange}
    (h : changeFrom before after header quiet = some change) : change.before = some before ∧ change.after = after := by
  unfold changeFrom at h
  split at h
  · cases h
    exact ⟨rfl, rfl⟩
  · cases h

/-- What a change tells is what its list adds. -/
theorem changeFrom_tells {before after header n : Str} : (∃ change ∈ changeFrom before after header noneQuiet,
    NamesOrCounts change.notice change.added n) ↔ n ∈ addedNames before after noneQuiet := by
  unfold changeFrom
  split
  · constructor
    · rintro ⟨_, hchange, hn⟩
      cases hchange
      exact hn.mem
    · intro hn
      exact ⟨_, rfl, line_tells header hn⟩
  · rename_i hnone
    rw [not_not.1 hnone]
    constructor
    · rintro ⟨_, hchange, -⟩
      cases hchange
    · intro hn
      exact absurd hn List.not_mem_nil

theorem Answered.news {prev : Option (Take × Fate)} {x : Take × Fate} (h : Answered prev x) :
    Offers.News Offered TellsOf prev x := by
  intro n
  unfold TellsOf Take.Tells
  rw [h]
  cases prev with
  | none =>
    constructor
    · rintro ⟨_, hchange, -⟩
      cases hchange
    · rintro ⟨-, _, hp, -⟩
      cases hp
  | some p =>
    rw [Option.map_some, Option.bind_some, changeFrom_tells, mem_addedNames, mem_listText]
    constructor
    · rintro ⟨hin, hout, -⟩
      exact ⟨hin, p, rfl, hout⟩
    · rintro ⟨hin, _, hp, hout⟩
      cases hp
      exact ⟨hin, hout, rfl⟩

/-- What answered with a change has a list before it. -/
theorem Answered.change {prev : Option (Take × Fate)} {x : Take × Fate} {change : ToolsChange} (h : Answered prev x)
    (hx : x.1.answer = some change) : ∃ p, prev = some p ∧ change.before = some (listText p.1.current) ∧
      change.after = listText x.1.current := by
  rw [h] at hx
  obtain ⟨before, hbefore, hchange⟩ := Option.bind_eq_some_iff.1 hx
  obtain ⟨p, hp, rfl⟩ := Option.map_eq_some_iff.1 hbefore
  exact ⟨p, hp, changeFrom_some hchange⟩

theorem MadeUp.kept {l : List (Take × Fate)} (h : MadeUp l) : Offers.Kept Offered TellsOf Failed l := by
  refine Offers.kept_of_splits ?_
  rintro before x after hl hfailed n ⟨change, hchange, hn⟩
  exact h (before, x, after) (mem_splits.2 hl) hfailed change hchange n hn.mem

end Answers

/-! ## The invariant -/

section Steps

variable {owner conversation n : Str} {w : World} {i : Nat} {t : Take} {change : ToolsChange}

/-- The record of a conversation is its last standing list, each of these answered against the one before. -/
structure Sound (owner conversation : Str) (w : World) : Prop where
  record : recordOf w.table owner conversation =
    (standing owner conversation w.log).getLast?.map fun p => listText p.1.current
  chain : Offers.Chained Answered none (standing owner conversation w.log)
  kept : Offers.Kept Offered TellsOf Failed (standing owner conversation w.log)
  fates : ∀ x ∈ w.log, x.2 = .silent ↔ x.1.answer = none
  first : FirstSilent owner conversation w

theorem isOf_iff : t.isOf owner conversation = true ↔ t.owner = owner ∧ t.conversation = conversation := by
  simp [Take.isOf]

theorem isOf_apart (h : t.isOf owner conversation = false) : ¬(owner = t.owner ∧ conversation = t.conversation) := by
  rintro ⟨rfl, rfl⟩
  rw [isOf_iff.2 ⟨rfl, rfl⟩] at h
  cases h

theorem firstSilent_iff : FirstSilent owner conversation w ↔
    ∀ t ∈ ((w.log.map (·.1)).filter (·.isOf owner conversation)).head?, t.answer = none := by
  rw [List.filter_map, List.head?_map]
  unfold FirstSilent takes
  constructor
  · intro h t ht
    obtain ⟨x, hx, rfl⟩ := Option.mem_map.1 ht
    exact h x hx
  · intro h x hx
    exact h x.1 (Option.mem_map_of_mem _ hx)

theorem sound_start {rows : List ToolsSeenRow} (hnew : recordOf rows owner conversation = none) :
    Sound owner conversation ⟨rows, []⟩ where
  record := hnew
  chain := trivial
  kept := trivial
  fates := fun _ hx => absurd hx List.not_mem_nil
  first := fun _ hx => by cases hx

/-- A step that touches another conversation only. -/
theorem Sound.apart {w' : World} (h : Sound owner conversation w)
    (hrecord : recordOf w'.table owner conversation = recordOf w.table owner conversation)
    (hstanding : standing owner conversation w'.log = standing owner conversation w.log)
    (hfates : ∀ x ∈ w'.log, x.2 = .silent ↔ x.1.answer = none) (hfirst : FirstSilent owner conversation w') :
    Sound owner conversation w' where
  record := by rw [hrecord, hstanding]; exact h.record
  chain := by rw [hstanding]; exact h.chain
  kept := by rw [hstanding]; exact h.kept
  fates := hfates
  first := hfirst

theorem begun_fate (t : Take) : t.begun.2 = .silent ↔ t.answer = none := by
  unfold Take.begun
  dsimp only
  split <;> simp [*]

theorem begun_ne (t : Take) : t.begun.2 ≠ .putBack ∧ t.begun.2 ≠ .returned := by
  unfold Take.begun
  dsimp only
  split <;> decide

theorem fates_begun (h : Sound owner conversation w) (t : Take) :
    ∀ x ∈ w.log ++ [t.begun], x.2 = .silent ↔ x.1.answer = none := by
  intro x hx
  rcases List.mem_append.1 hx with hx | hx
  · exact h.fates x hx
  · rw [List.mem_singleton.1 hx]
    exact begun_fate t

/-- A take of this conversation. -/
theorem sound_begun {table : List ToolsSeenRow} (h : Sound owner conversation w)
    (hof : t.isOf owner conversation = true) (hrecord : recordOf table owner conversation = some (listText t.current))
    (hanswer : t.answer = (recordOf w.table owner conversation).bind fun before =>
      changeFrom before (listText t.current) t.header noneQuiet) : Sound owner conversation ⟨table, w.log ++ [t.begun]⟩ := by
  have hstanding : standing owner conversation (w.log ++ [t.begun]) = standing owner conversation w.log ++ [t.begun] := by
    rw [standing_append]
    exact congrArg _ (standing_self hof (begun_ne t).1)
  have hanswered : Answered (standing owner conversation w.log).getLast? t.begun := by
    rw [h.record] at hanswer
    exact hanswer
  refine ⟨?_, ?_, ?_, fates_begun h t, ?_⟩
  · dsimp only
    rw [hstanding, hrecord, List.getLast?_concat]
    rfl
  · dsimp only
    rw [hstanding]
    exact Offers.chained_concat.2 ⟨h.chain, hanswered⟩
  · dsimp only
    rw [hstanding]
    exact h.kept.concat (begun_ne t).2
  · intro first hfirst
    have htakes : takes owner conversation (w.log ++ [t.begun]) = takes owner conversation w.log ++ [t.begun] := by
      rw [takes, List.filter_append, List.filter_singleton, show t.begun.1.isOf owner conversation = true from hof]
      rfl
    dsimp only at hfirst
    rw [htakes] at hfirst
    cases hlog : takes owner conversation w.log with
    | cons x rest =>
      rw [hlog] at hfirst
      refine h.first first ?_
      rw [hlog]
      exact hfirst
    | nil =>
      rw [hlog] at hfirst
      cases hfirst
      -- Nothing was recorded of the conversation yet.
      rw [standing, hlog] at hanswered
      exact hanswered

theorem sound_take (h : Sound owner conversation w) (owner' conversation' : Str) (current : List Str) (header : Str) :
    Sound owner conversation (w.step (.take owner' conversation' current header)).2 := by
  by_cases hkey : owner = owner' ∧ conversation = conversation'
  · obtain ⟨rfl, rfl⟩ := hkey
    exact sound_begun h (isOf_iff.2 ⟨rfl, rfl⟩) take_record take_answer
  · set t : Take := ⟨owner', conversation', current, header,
      (takeToolsChange w.table owner' conversation' current header noneQuiet).2⟩ with ht
    have hof : t.isOf owner conversation = false :=
      Bool.eq_false_iff.2 fun hof => hkey ⟨(isOf_iff.1 hof).1.symm, (isOf_iff.1 hof).2.symm⟩
    refine h.apart (take_other hkey) ?_ (fates_begun h t) (firstSilent_iff.2 ?_)
    · exact (standing_append ..).trans ((congrArg _ (standing_other hof)).trans (List.append_nil _))
    · have hlog : (w.step (.take owner' conversation' current header)).2.log = w.log ++ [t.begun] := rfl
      rw [hlog, List.map_append, List.filter_append, List.map_singleton, List.filter_singleton,
        show t.begun.1.isOf owner conversation = false from hof, cond_false, List.append_nil]
      exact firstSilent_iff.1 h.first

section Settled

variable {f : Fate}

theorem fates_set (h : Sound owner conversation w) (ht : t.answer = some change) (hf : f ≠ .silent) :
    ∀ x ∈ w.log.set i (t, f), x.2 = .silent ↔ x.1.answer = none := by
  intro x hx
  rcases List.mem_or_eq_of_mem_set hx with hx | rfl
  · exact h.fates x hx
  · rw [ht]
    exact ⟨fun hsilent => absurd hsilent hf, fun hnone => by cases hnone⟩

theorem first_set {table : List ToolsSeenRow} (h : Sound owner conversation w) (hi : w.log[i]? = some (t, .flight)) :
    FirstSilent owner conversation ⟨table, w.log.set i (t, f)⟩ := by
  refine firstSilent_iff.2 ?_
  dsimp only
  rw [set_takes hi]
  exact firstSilent_iff.1 h.first

/-- A message of another conversation is settled. -/
theorem sound_other {table : List ToolsSeenRow} (h : Sound owner conversation w) (hi : w.log[i]? = some (t, .flight))
    (ht : t.answer = some change) (hf : f ≠ .silent) (hof : t.isOf owner conversation = false)
    (hrecord : recordOf table owner conversation = recordOf w.table owner conversation) :
    Sound owner conversation ⟨table, w.log.set i (t, f)⟩ := by
  refine h.apart hrecord ?_ (fates_set h ht hf) (first_set h hi)
  obtain ⟨hold, hnew⟩ := standing_set owner conversation hi f
  rw [standing_other hof] at hold hnew
  exact hnew.trans hold.symm

/-- A message is written, or its change returned with the record moved. -/
theorem sound_settle {table : List ToolsSeenRow} (h : Sound owner conversation w) (hi : w.log[i]? = some (t, .flight))
    (ht : t.answer = some change) (hof : t.isOf owner conversation = true)
    (hf : f = .written ∨ f = .returned ∧
      ∀ n, t.Tells n → ∃ y ∈ standing owner conversation (w.log.drop (i + 1)), n ∉ y.1.current)
    (hrecord : recordOf table owner conversation = recordOf w.table owner conversation) :
    Sound owner conversation ⟨table, w.log.set i (t, f)⟩ := by
  have hlive : f ≠ .silent ∧ f ≠ .putBack := by
    rcases hf with rfl | ⟨rfl, -⟩ <;> decide
  obtain ⟨hold, hnew⟩ := standing_set owner conversation hi f
  rw [standing_self hof (by decide), List.singleton_append] at hold
  rw [standing_self hof hlive.2, List.singleton_append] at hnew
  refine ⟨?_, ?_, ?_, fates_set h ht hlive.1, first_set h hi⟩
  · dsimp only
    rw [hrecord, h.record, hold, hnew, List.getLast?_append, List.getLast?_append, List.getLast?_cons,
      List.getLast?_cons]
    cases (standing owner conversation (w.log.drop (i + 1))).getLast? <;> rfl
  · dsimp only
    rw [hnew]
    exact (hold ▸ h.chain).swap (fun _ => id) fun _ => id
  · dsimp only
    rw [hnew]
    have hkept := hold ▸ h.kept
    refine hkept.replace ⟨fun hfailed n hn => ?_, hkept.tail.2⟩ ?_
    · rcases hf with rfl | ⟨-, hlacks⟩
      · cases hfailed
      · exact hlacks n hn
    · rintro n ⟨y, hy, hlack⟩
      rcases List.mem_cons.1 hy with rfl | hy
      · exact ⟨_, List.mem_cons_self, hlack⟩
      · exact ⟨y, List.mem_cons_of_mem _ hy, hlack⟩

/-- The change of the last standing take is put back. -/
theorem sound_putBack {table : List ToolsSeenRow} (h : Sound owner conversation w) (hi : w.log[i]? = some (t, .flight))
    (ht : t.answer = some change) (hof : t.isOf owner conversation = true)
    (hlast : standing owner conversation (w.log.drop (i + 1)) = [])
    (hmade : MadeUp (standing owner conversation (w.log.take i)))
    (hrecord : recordOf table owner conversation = change.before) :
    Sound owner conversation ⟨table, w.log.set i (t, .putBack)⟩ := by
  obtain ⟨hold, hnew⟩ := standing_set owner conversation hi .putBack
  rw [standing_self hof (by decide), hlast, List.append_nil] at hold
  rw [standing_putBack, hlast, List.append_nil, List.append_nil] at hnew
  have hchain := h.chain
  rw [hold, Offers.chained_concat] at hchain
  obtain ⟨p, hp, hbefore, -⟩ := hchain.2.change ht
  refine ⟨?_, ?_, ?_, fates_set h ht (by decide), first_set h hi⟩
  · dsimp only
    rw [hrecord, hbefore, hnew, hp]
    rfl
  · dsimp only
    rw [hnew]
    exact hchain.1
  · dsimp only
    rw [hnew]
    exact hmade.kept

end Settled

theorem sound_giveBack (h : Sound owner conversation w) (hok : Lawful owner conversation w (.giveBack i)) :
    Sound owner conversation (w.step (.giveBack i)).2 := by
  cases hx : w.inFlight i with
  | none => simpa only [World.step, hx] using h
  | some x =>
    obtain ⟨t, change⟩ := x
    obtain ⟨hi, ht⟩ := inFlight_some hx
    dsimp only at hi ht
    simp only [World.step, hx]
    cases hof : t.isOf owner conversation with
    | false => exact sound_other h hi ht (by split <;> decide) hof (return_other (isOf_apart hof))
    | true =>
      obtain ⟨rfl, rfl⟩ := isOf_iff.1 hof
      -- Its list is of the chain, so the change says what was recorded before it.
      obtain ⟨hold, -⟩ := standing_set t.owner t.conversation hi .written
      rw [standing_self hof (by decide), List.singleton_append] at hold
      have hchain := h.chain
      rw [hold] at hchain
      obtain ⟨p, -, hbefore, hafter⟩ := hchain.at.1.change ht
      have hreturn := @return_record w.table t.owner t.conversation change _ hbefore
      rcases hok _ hx hof with ⟨hlast, hmade⟩ | ⟨hmoved, hlacks⟩
      · have hthere : recordOf w.table t.owner t.conversation = some change.after := by
          rw [h.record, hold, hlast, List.getLast?_concat, hafter]
          rfl
        rw [if_pos hthere] at hreturn ⊢
        exact sound_putBack h hi ht hof hlast hmade (hreturn.trans hbefore.symm)
      · rw [if_neg hmoved] at hreturn ⊢
        refine sound_settle h hi ht hof (.inr ⟨rfl, ?_⟩) hreturn
        rintro n ⟨_, hchange, hn⟩
        rw [ht] at hchange
        cases hchange
        exact hlacks n hn.mem

theorem sound_write (h : Sound owner conversation w) : Sound owner conversation (w.step (.write i)).2 := by
  cases hx : w.inFlight i with
  | none => simpa only [World.step, hx] using h
  | some x =>
    obtain ⟨hi, ht⟩ := inFlight_some hx
    simp only [World.step, hx]
    cases hof : x.1.isOf owner conversation with
    | false => exact sound_other h hi ht (by decide) hof rfl
    | true => exact sound_settle h hi ht hof (.inl rfl) rfl

theorem sound_step (h : Sound owner conversation w) {step : Step} (hok : Lawful owner conversation w step) :
    Sound owner conversation (w.step step).2 := by
  cases step with
  | take owner' conversation' current header => exact sound_take h owner' conversation' current header
  | write i => exact sound_write h
  | giveBack i => exact sound_giveBack h hok

/-- A step changes no record but that of the conversation it is on. -/
theorem step_other {step : Step} (hon : ¬w.isOn owner conversation step) :
    recordOf (w.step step).2.table owner conversation = recordOf w.table owner conversation := by
  cases step with
  | take owner' conversation' current header => exact take_other fun hkey => hon ⟨hkey.1.symm, hkey.2.symm⟩
  | write i =>
    simp only [World.step]
    split <;> rfl
  | giveBack i =>
    simp only [World.step]
    split
    · rfl
    · rename_i x hx
      have hof : x.1.isOf owner conversation = false := Bool.eq_false_iff.2 fun hof => hon ⟨x, hx, hof⟩
      exact return_other (isOf_apart hof)

/-! ## Every run -/

theorem Sound.news (h : Sound owner conversation w) :
    Offers.Chained (Offers.News Offered TellsOf) none (standing owner conversation w.log) :=
  h.chain.mono fun _ _ => Answered.news

/-- A take that tells, and has not failed, was written where none is on its way. -/
theorem written_of_tells (h : Sound owner conversation w) (hflight : ∀ x ∈ takes owner conversation w.log, x.2 ≠ .flight)
    {x : Take × Fate} (hx : x ∈ standing owner conversation w.log) (htells : x.1.Tells n) (hfailed : ¬Failed x) :
    x.2 = .written := by
  obtain ⟨hmem, hstands⟩ := List.mem_filter.1 hx
  have hfate := hflight x hmem
  have hsilent := h.fates x (List.mem_of_mem_filter hmem)
  obtain ⟨change, hchange, -⟩ := htells
  cases hf : x.2 with
  | written => rfl
  | flight => exact absurd hf hfate
  | returned => exact absurd hf hfailed
  | silent =>
    rw [hsilent.1 hf] at hchange
    cases hchange
  | putBack => simp [hf] at hstands

/-- A take that answered null stands. -/
theorem stands_of_silent (h : Sound owner conversation w) {x : Take × Fate} (hx : x ∈ takes owner conversation w.log)
    (hnull : x.1.answer = none) : (decide (x.2 ≠ .putBack)) = true := by
  rw [(h.fates x (List.mem_of_mem_filter hx)).2 hnull]
  decide

theorem Sound.gainsTold (h : Sound owner conversation w) : GainsTold owner conversation w := by
  intro hflight last hlast hnull n hn
  have hend : (standing owner conversation w.log).getLast? = some last := by
    obtain ⟨earlier, hearlier⟩ := List.getLast?_eq_some_iff.1 hlast
    rw [standing, hearlier, List.filter_append, List.filter_singleton,
      stands_of_silent h (List.mem_of_getLast? hlast) hnull, cond_true, List.getLast?_concat]
  have hhas : ∀ a ∈ (standing owner conversation w.log).getLast?.or none, Offered a n := by
    rw [hend]
    rintro _ ⟨⟩
    exact hn
  rcases Offers.told_since h.news hhas with ⟨hall, -⟩ | ⟨before, x, after, hl, htells, hsince⟩
  · refine .inl fun first hfirst => ?_
    have hmem := List.mem_of_head? hfirst
    exact hall first (List.mem_filter.2 ⟨hmem, stands_of_silent h hmem (h.first first hfirst)⟩)
  · have hx : x ∈ standing owner conversation w.log := by
      rw [hl]
      exact List.mem_append_right _ List.mem_cons_self
    exact .inr ⟨(before, x, after), mem_splits.2 hl,
      written_of_tells h hflight hx htells ((hl ▸ h.kept).sound htells hsince), htells, hsince⟩

theorem Sound.toldOnce (h : Sound owner conversation w) : ToldOnce owner conversation w := by
  rintro ⟨before, x, after⟩ hx - ⟨between, y, later⟩ hy - n htells htells'
  have hl := mem_splits.1 hx
  have hafter := mem_splits.1 hy
  dsimp only at hafter
  rw [hafter] at hl
  exact Offers.told_apart (hl ▸ h.news) htells htells'

theorem Sound.stillTold (h : Sound owner conversation w) : StillTold owner conversation w := by
  rintro hflight ⟨before, x, after⟩ hx hfailed n htells hlast
  have hl := mem_splits.1 hx
  have hkept := hl ▸ h.kept
  obtain ⟨z, hz, hlacks⟩ := hkept.tail.1 hfailed n htells
  have hhas : ∀ a ∈ after.getLast?.or (some x), Offered a n := by
    intro a ha
    refine hlast a ?_
    rw [hl, List.getLast?_append, List.getLast?_cons]
    revert ha
    cases after.getLast? <;> exact id
  rcases Offers.told_since (hl ▸ h.news).at.2 hhas with ⟨hall, -⟩ | ⟨between, y, later, rfl, hy, hsince⟩
  · exact absurd (hall z hz) hlacks
  · have hmem : y ∈ standing owner conversation w.log := by
      rw [hl]
      exact List.mem_append_right _ (List.mem_cons_of_mem _ (List.mem_append_right _ List.mem_cons_self))
    have hsplit : before ++ x :: (between ++ y :: later) = (before ++ x :: between) ++ y :: later := by
      rw [List.append_assoc, List.cons_append]
    exact ⟨(between, y, later), mem_splits.2 rfl,
      written_of_tells h hflight hmem hy ((hsplit ▸ hkept).sound hy hsince), hy⟩

/-- From no record of a conversation on, in every run of takes, writes and returns of any conversations whose returns
are lawful: what the model has gained it was told by a message that was written, also where an earlier one failed to
tell it, and never twice without having lost it between; the first message tells nothing; and no step changes the record
of another conversation. -/
theorem gains_told {rows : List ToolsSeenRow} (hnew : recordOf rows owner conversation = none) {steps : List Step}
    (hlawful : ∀ x ∈ History.turns World.step steps ⟨rows, []⟩, Lawful owner conversation x.before x.act) :
    GainsTold owner conversation (History.final World.step steps ⟨rows, []⟩) ∧
      ToldOnce owner conversation (History.final World.step steps ⟨rows, []⟩) ∧
      StillTold owner conversation (History.final World.step steps ⟨rows, []⟩) ∧
      FirstSilent owner conversation (History.final World.step steps ⟨rows, []⟩) ∧
      ∀ x ∈ History.turns World.step steps ⟨rows, []⟩, ∀ owner' conversation', ¬x.before.isOn owner' conversation' x.act →
        recordOf x.after.table owner' conversation' = recordOf x.before.table owner' conversation' := by
  have hsound : Sound owner conversation (History.final World.step steps ⟨rows, []⟩) :=
    History.final_guarded (sound_start hnew) (fun _ _ h hok => sound_step h hok) hlawful
  refine ⟨hsound.gainsTold, hsound.toldOnce, hsound.stillTold, hsound.first, fun x hx owner' conversation' hon => ?_⟩
  rw [History.mem_turns hx] at hon ⊢
  exact step_other hon

end Steps

/-- A take of one conversation with these tools. -/
def offering (names : List String) : Step := .take (js "t/a") (js "main") (names.map js) []

/-- A change is returned behind a list that leaves out what it told; it is told with a later list. -/
def toldLater : List Step :=
  [offering [], offering ["a"], offering ["b"], .giveBack 1, .write 2, offering ["a", "b"], .write 3, offering ["a", "b"]]

theorem gains_told_later : (standing (js "t/a") (js "main") (History.final World.step toldLater ⟨[], []⟩).log).map (·.2) =
      [.silent, .returned, .written, .written, .silent] ∧
    GainsTold (js "t/a") (js "main") (History.final World.step toldLater ⟨[], []⟩) ∧
      StillTold (js "t/a") (js "main") (History.final World.step toldLater ⟨[], []⟩) := by
  obtain ⟨hgains, -, hstill, -⟩ :=
    @gains_told (js "t/a") (js "main") [] rfl toldLater (by decide)
  exact ⟨by decide, hgains, hstill⟩

/-- A change is returned after a list that has what it told was taken and written. -/
def movedRecord : List Step :=
  [offering [], offering ["a"], offering ["a", "b"], .giveBack 1, .write 2, offering ["a", "b"]]

/-- A change is returned after the record went away and came back to what it left. -/
def samePlace : List Step :=
  [offering [], offering ["a"], offering [], offering ["a"], .giveBack 1, offering ["a"], .write 3, .write 4]

/-- In the first of these runs a message that was not written is all that told of `a`; in the second two written messages
tell of it, with no list between them that leaves it out. -/
theorem gain_untold : ¬GainsTold (js "t/a") (js "main") (History.final World.step movedRecord ⟨[], []⟩) ∧
    ¬ToldOnce (js "t/a") (js "main") (History.final World.step samePlace ⟨[], []⟩) := by
  constructor
  · intro h
    have huntold : ∃ last ∈ (takes (js "t/a") (js "main") (History.final World.step movedRecord ⟨[], []⟩).log).getLast?,
        last.1.answer = none ∧ js "a" ∈ last.1.current ∧
          ¬(∀ first ∈ (takes (js "t/a") (js "main") (History.final World.step movedRecord ⟨[], []⟩).log).head?,
            js "a" ∈ first.1.current) ∧
          ¬∃ s ∈ splits (standing (js "t/a") (js "main") (History.final World.step movedRecord ⟨[], []⟩).log),
            s.2.1.2 = .written ∧ s.2.1.1.Tells (js "a") ∧ ∀ y ∈ s.2.2, js "a" ∈ y.1.current := by
      decide +kernel
    obtain ⟨last, hlast, hnull, hin, hfirst, htold⟩ := huntold
    rcases h (by decide) last hlast hnull (js "a") hin with h | h
    · exact hfirst h
    · exact htold h
  · intro h
    have htwice : ∃ s ∈ splits (standing (js "t/a") (js "main") (History.final World.step samePlace ⟨[], []⟩).log),
        s.2.1.2 = .written ∧ ∃ s' ∈ splits s.2.2, s'.2.1.2 = .written ∧ s.2.1.1.Tells (js "a") ∧
          s'.2.1.1.Tells (js "a") ∧ ¬∃ z ∈ s'.1, js "a" ∉ z.1.current := by
      decide +kernel
    obtain ⟨s, hs, hwritten, s', hs', hwritten', htells, htells', hsame⟩ := htwice
    exact hsame (h s hs hwritten s' hs' hwritten' _ htells htells')

end Antiproton.ToolsSeen
