import Antiproton.Lib.History
import Antiproton.Prompt.Notice

/-!
# Antiproton.Prompt.Told

What a conversation's model has been told of the parts of its prompt that move (`src/runtime/prompt-context.ts`): the
parts taken when it started, the change a message takes, and a change put back when its message was not written.

* `Known`: the parts `seen` says were told are known once the messages on their way are read, but for those owed, and
  so they are were the last change put back.
* `known_take`, `known_write`, `known_owe`, `known_restore`: each operation keeps it.
* `nothing_lost`: with nothing on its way and nothing to take, the messages read in order give what the parts say now.
-/

namespace Antiproton.Prompt

open Js

/-! ## The row of a conversation -/

structure ContextRow where
  snapshot : PromptContext
  seen : PromptContext
  owed : List Str
deriving DecidableEq

/-- The row a harness opened on the conversation leaves, and the parts it is built with. -/
def promptContextFor (had : Option ContextRow) (current : PromptContext) (started : Bool) : ContextRow × PromptContext :=
  match had, started with
  | some row, true => (row, row.snapshot)
  | _, _ => (⟨current, current, []⟩, current)

/-- A change taken for one message, its notice as text and as what it says. -/
structure ContextChange where
  notice : Str
  said : Notice
  before : PromptContext
  beforeOwed : List Str
  after : PromptContext
deriving DecidableEq

def ContextChange.told (c : ContextChange) : List Str := c.said.keys

/-- What "nothing moved" compares: the parts and the held lines. -/
def toldOf (c : PromptContext) : List PromptPart × List Str := (c.parts, c.held)

def takeContextChange (had : Option ContextRow) (current : PromptContext) (header : Str) :
    Option ContextRow × Option ContextChange :=
  match had with
  | none => (none, none)
  | some row =>
    if toldOf row.seen = toldOf current ∧ row.owed = [] then (some row, none)
    else
      match contextNotice row.seen current row.owed with
      | none => (some (if toldOf row.seen = toldOf current then { row with owed := [] } else row), none)
      | some said =>
        (some { row with seen := current, owed := [] },
          some ⟨header ++ said.text, said, row.seen, row.owed, current⟩)

/-- Whether putting a change back restores what was seen before it. -/
def Restores (row : ContextRow) (change : ContextChange) : Prop := row.seen = change.after ∧ row.owed = []

instance (row : ContextRow) (change : ContextChange) : Decidable (Restores row change) := inferInstanceAs (Decidable (_ ∧ _))

def returnContextChange (had : Option ContextRow) (change : ContextChange) : Option ContextRow :=
  had.map fun row =>
    if Restores row change then { row with seen := change.before, owed := change.beforeOwed }
    else { row with owed := (row.owed ++ change.told).eraseDups }

/-! ## A conversation -/

/-- What became of a message that took a change. -/
inductive Fate where
  | flight
  | written
  | returned
deriving DecidableEq

structure Conversation where
  row : Option ContextRow
  current : PromptContext
  /-- The changes taken, in order. -/
  taken : List (ContextChange × Fate)
  /-- What the written messages say, in the order they were written. -/
  messages : List Notice
  /-- The changes that moved `seen` and were not undone, the last one first. -/
  movers : List Nat
deriving DecidableEq

inductive Step where
  | change (now : PromptContext)
  | take (header : Str)
  | write (i : Nat)
  | giveBack (i : Nat)
deriving DecidableEq

def Conversation.inFlight (s : Conversation) (i : Nat) : Option ContextChange :=
  (s.taken[i]?).bind fun x => if x.2 = .flight then some x.1 else none

def Conversation.step : Step → Conversation → Option ContextChange × Conversation
  | .change now, s => (none, { s with current := now })
  | .take header, s =>
    match takeContextChange s.row s.current header with
    | (row, none) => (none, { s with row })
    | (row, some c) =>
      (some c, { s with row, taken := s.taken ++ [(c, .flight)], movers := s.taken.length :: s.movers })
  | .write i, s =>
    match s.inFlight i with
    | none => (none, s)
    | some c => (none, { s with taken := s.taken.set i (c, .written), messages := s.messages ++ [c.said] })
  | .giveBack i, s =>
    match s.inFlight i with
    | none => (none, s)
    | some c =>
      (none, { s with
        row := returnContextChange s.row c
        taken := s.taken.set i (c, .returned)
        movers := if ∃ row ∈ s.row, Restores row c then s.movers.erase i else s.movers })

/-- A conversation whose prompt has just been taken. -/
def opened (had : Option ContextRow) (start : PromptContext) (started : Bool) : Conversation :=
  ⟨some (promptContextFor had start started).1, start, [], [], []⟩

/-- What is known once the written messages are read after the prompt. -/
def Conversation.known (s : Conversation) (prompt : PromptContext) : View :=
  s.messages.foldl (fun v n => n.apply v) prompt.view

/-- Where a change is taken, each key owed names something to tell, and the lines a part is said to have grown by are
what stands after its earlier text. -/
def Conversation.Tells (s : Conversation) : Prop :=
  ∀ row ∈ s.row, There row.seen s.current row.owed ∧
    ∀ k ∈ keysOf row.seen s.current, k.1 ∉ row.owed → Literal (textOf (row.seen.get k)) (textOf (s.current.get k))

/-- What each step relies on: messages are written in the order they took their changes, and what restores what was
seen is the change that moved it last. -/
def Relies (s : Conversation) : Step → Prop
  | .change _ => True
  | .take _ => s.Tells
  | .write i => ∀ j ∈ List.range s.taken.length, (s.taken[j]?.map (·.2)) = some .written → j < i
  | .giveBack i => ∀ row ∈ s.row, ∀ c ∈ s.inFlight i, Restores row c → s.movers.head? = some i

instance (s : Conversation) : Decidable s.Tells :=
  inferInstanceAs (Decidable (∀ row ∈ s.row, There row.seen s.current row.owed ∧
    ∀ k ∈ keysOf row.seen s.current, k.1 ∉ row.owed → Literal (textOf (row.seen.get k)) (textOf (s.current.get k))))

instance (s : Conversation) (step : Step) : Decidable (Relies s step) := by
  cases step <;> unfold Relies <;> infer_instance

/-! ## What the messages on their way will have told -/

section Heard

variable {v : View} {taken : List (ContextChange × Fate)} {i : Nat} {c : ContextChange}

/-- What is known once every change that was not put back is read, in the order they were taken. -/
def heard (v : View) (taken : List (ContextChange × Fate)) : View :=
  taken.foldl (fun v x => if x.2 = .returned then v else x.1.said.apply v) v

theorem heard_append (v : View) (taken : List (ContextChange × Fate)) (x : ContextChange × Fate) :
    heard v (taken ++ [x]) = if x.2 = .returned then heard v taken else x.1.said.apply (heard v taken) := by
  rw [heard, List.foldl_append]
  rfl

/-- A notice passes on what the text of each topic was. -/
theorem apply_congr (n : Notice) {v w : View} {t : Topic} (h : v t = w t) : n.apply v t = n.apply w t := by
  rw [apply_about, apply_about, h]

theorem heard_congr {v w : View} {t : Topic} (taken : List (ContextChange × Fate)) (h : v t = w t) :
    heard v taken t = heard w taken t := by
  induction taken generalizing v w with
  | nil => exact h
  | cons x rest ih =>
    refine ih ?_
    dsimp only
    split
    · exact h
    · exact apply_congr x.1.said h

/-- A message that is written tells what it was on its way to tell. -/
theorem heard_written (h : taken[i]? = some (c, .flight)) : heard v (taken.set i (c, .written)) = heard v taken := by
  obtain ⟨hold, hnew⟩ := History.set_split h (c, .written)
  rw [hnew]
  conv_rhs => rw [hold]
  simp only [heard, List.foldl_append, List.foldl_cons, reduceCtorEq, if_false]

/-- A message that is not written leaves what it did not tell as it was to be. -/
theorem heard_returned {t : Topic} (h : taken[i]? = some (c, .flight)) (ht : t.key ∉ c.told) :
    heard v (taken.set i (c, .returned)) t = heard v taken t := by
  obtain ⟨hold, hnew⟩ := History.set_split h (c, .returned)
  rw [hnew]
  conv_rhs => rw [hold]
  simp only [heard, List.foldl_append, List.foldl_cons, reduceCtorEq, if_false, if_true]
  exact heard_congr _ (apply_untold ht _).symm

end Heard

/-! ## The invariant -/

section Known

variable (v : View)

/-- What `seen` says was told is known once the messages on their way are read, but for what is owed. -/
def Up (seen : PromptContext) (owed : List Str) (taken : List (ContextChange × Fate)) : Prop :=
  ∀ t : Topic, t.key ∉ owed → heard v taken t = seen.view t

/-- And so it is, however many of the last changes are put back one after the other. -/
def Known : PromptContext → List Str → List (ContextChange × Fate) → List Nat → Prop
  | seen, owed, taken, [] => Up v seen owed taken
  | seen, owed, taken, i :: movers =>
    Up v seen owed taken ∧ ∀ c, taken[i]? = some (c, .flight) → owed = [] →
      Known c.before c.beforeOwed (taken.set i (c, .returned)) movers

variable {v} {seen : PromptContext} {owed : List Str} {taken : List (ContextChange × Fate)} {movers : List Nat}
  {i : Nat} {c : ContextChange}

theorem Known.up (h : Known v seen owed taken movers) : Up v seen owed taken := by
  cases movers with
  | nil => exact h
  | cons i movers => exact h.1

/-- A change already put back adds nothing. -/
theorem known_returned (h : Known v seen owed taken movers) :
    Known v seen owed (taken ++ [(c, .returned)]) movers := by
  induction movers generalizing seen owed taken with
  | nil =>
    intro t ht
    rw [heard_append, if_pos rfl]
    exact h t ht
  | cons j movers ih =>
    refine ⟨fun t ht => ?_, fun c' hc howed => ?_⟩
    · rw [heard_append, if_pos rfl]
      exact h.1 t ht
    · have hj : j < taken.length := by
        by_contra hj
        rw [List.getElem?_append_right (by omega)] at hc
        cases hk : j - taken.length with
        | zero => rw [hk] at hc; cases hc
        | succ k => rw [hk] at hc; cases hc
      rw [List.getElem?_append_left hj] at hc
      rw [List.set_append_left _ _ hj]
      exact ih (h.2 c' hc howed)

theorem known_take (h : Known v seen owed taken movers) (hbefore : c.before = seen) (howed : c.beforeOwed = owed)
    {now : PromptContext} (hup : ∀ t, c.said.apply (heard v taken) t = now.view t) :
    Known v now [] (taken ++ [(c, .flight)]) (taken.length :: movers) := by
  refine ⟨fun t _ => ?_, fun c' hc _ => ?_⟩
  · rw [heard_append, if_neg (by simp)]
    exact hup t
  · rw [List.getElem?_concat_length] at hc
    cases hc
    rw [List.set_append_right _ _ (Nat.le_refl _), Nat.sub_self, hbefore, howed]
    exact known_returned h

theorem known_write (h : Known v seen owed taken movers) (hi : taken[i]? = some (c, .flight)) :
    Known v seen owed (taken.set i (c, .written)) movers := by
  induction movers generalizing seen owed taken with
  | nil =>
    intro t ht
    rw [heard_written hi]
    exact h t ht
  | cons j movers ih =>
    refine ⟨fun t ht => ?_, fun c' hc howed => ?_⟩
    · rw [heard_written hi]
      exact h.1 t ht
    · have hne : i ≠ j := by
        rintro rfl
        rw [List.getElem?_set_self (List.getElem?_eq_some_iff.1 hi).1] at hc
        cases hc
      rw [List.getElem?_set_ne hne] at hc
      rw [List.set_comm _ _ hne]
      exact ih (h.2 c' hc howed) (by rw [List.getElem?_set_ne (Ne.symm hne)]; exact hi)

/-- A change put back in full is owed. -/
theorem known_owe (h : Known v seen owed taken movers) (hi : taken[i]? = some (c, .flight)) {owed' : List Str}
    (howed : ∀ key, key ∈ owed' ↔ key ∈ owed ∨ key ∈ c.told) :
    Known v seen owed' (taken.set i (c, .returned)) movers := by
  have hup : Up v seen owed' (taken.set i (c, .returned)) := by
    intro t ht
    rw [howed, not_or] at ht
    rw [heard_returned hi ht.2]
    exact h.up t ht.1
  cases movers with
  | nil => exact hup
  | cons j movers =>
    refine ⟨hup, fun _ _ hnone => ?_⟩
    -- What was told is not nothing.
    obtain ⟨e, he⟩ := List.exists_mem_of_ne_nil _ c.said.some
    have hmem := (howed e.key).2 (.inr (List.mem_map_of_mem he))
    rw [hnone] at hmem
    cases hmem

theorem known_restore (h : Known v seen [] taken (i :: movers)) (hi : taken[i]? = some (c, .flight)) :
    Known v c.before c.beforeOwed (taken.set i (c, .returned)) movers := h.2 c hi rfl

end Known

/-! ## What taking a change does -/

section Take

variable {row : ContextRow} {now : PromptContext} {header : Str} {c : ContextChange}

/-- Where nothing is taken, nothing is owed and nothing to tell has moved. -/
theorem take_none (hthere : There row.seen now row.owed) (h : (takeContextChange (some row) now header).2 = none) :
    (takeContextChange (some row) now header).1 = some row ∧ row.owed = [] ∧
      (toldOf row.seen = toldOf now ∨ contextNotice row.seen now row.owed = none) := by
  by_cases hsame : toldOf row.seen = toldOf now ∧ row.owed = []
  · simp only [takeContextChange, if_pos hsame]
    exact ⟨trivial, hsame.2, .inl hsame.1⟩
  · simp only [takeContextChange, if_neg hsame] at h ⊢
    cases hsaid : contextNotice row.seen now row.owed with
    | some said =>
      rw [hsaid] at h
      cases h
    | none =>
      have howed : row.owed = [] := by
        by_contra hne
        obtain ⟨key, hkey⟩ := List.exists_mem_of_ne_nil _ hne
        obtain ⟨n, hn, -⟩ := owed_told hthere hkey
        rw [hsaid] at hn
        cases hn
      refine ⟨?_, howed, .inr rfl⟩
      rw [if_neg fun h => hsame ⟨h, howed⟩]

theorem take_some (h : (takeContextChange (some row) now header).2 = some c) :
    (takeContextChange (some row) now header).1 = some { row with seen := now, owed := [] } ∧
      c.before = row.seen ∧ c.beforeOwed = row.owed ∧ contextNotice row.seen now row.owed = some c.said := by
  by_cases hsame : toldOf row.seen = toldOf now ∧ row.owed = []
  · simp only [takeContextChange, if_pos hsame] at h
    cases h
  · simp only [takeContextChange, if_neg hsame] at h ⊢
    cases hsaid : contextNotice row.seen now row.owed with
    | none =>
      rw [hsaid] at h
      cases h
    | some said =>
      rw [hsaid] at h
      cases h
      exact ⟨rfl, rfl, rfl, rfl⟩

theorem view_toldOf {a b : PromptContext} (h : toldOf a = toldOf b) : a.view = b.view := by
  obtain ⟨hparts, hheld⟩ := Prod.mk.inj h
  funext t
  cases t with
  | part k => simp only [PromptContext.view, PromptContext.get, hparts]
  | held => simp only [PromptContext.view, hheld]

end Take

/-! ## Every run -/

section Run

variable {prompt : PromptContext} {s : Conversation}

/-- The row stands for what the messages tell, and the messages were written in the order they took their changes. -/
structure Sound (prompt : PromptContext) (s : Conversation) : Prop where
  row : ∃ row, s.row = some row ∧ Known prompt.view row.seen row.owed s.taken s.movers
  messages : s.messages = (s.taken.filter (·.2 = .written)).map (·.1.said)

theorem inFlight_some {i : Nat} {c : ContextChange} (h : s.inFlight i = some c) : s.taken[i]? = some (c, .flight) := by
  obtain ⟨x, hx, h⟩ := Option.bind_eq_some_iff.1 h
  split at h
  · rename_i hfate
    cases h
    rw [hx, ← hfate]
  · cases h

theorem sound_opened (had : Option ContextRow) (start : PromptContext) {started : Bool}
    (htook : had = none ∨ started = false) : Sound start (opened had start started) := by
  have hrow : (promptContextFor had start started).1 = ⟨start, start, []⟩ := by
    rcases htook with rfl | rfl
    · rfl
    · cases had <;> rfl
  refine ⟨⟨_, rfl, ?_⟩, rfl⟩
  rw [hrow]
  exact fun _ _ => rfl

theorem sound_take (h : Sound prompt s) (hs : s.Tells) (header : Str) : Sound prompt (s.step (.take header)).2 := by
  obtain ⟨⟨row, hrow, hknown⟩, hmessages⟩ := h
  obtain ⟨hthere, hlit⟩ := hs row hrow
  have htake : takeContextChange s.row s.current header = takeContextChange (some row) s.current header := by rw [hrow]
  cases hc : (takeContextChange (some row) s.current header).2 with
  | none =>
    have hsame := (take_none hthere hc).1
    have hstep : (s.step (.take header)).2 = { s with row := some row } := by
      simp only [Conversation.step, htake]
      rw [show takeContextChange (some row) s.current header = (some row, none) from Prod.ext hsame hc]
    rw [hstep]
    exact ⟨⟨row, rfl, hknown⟩, hmessages⟩
  | some c =>
    obtain ⟨hrow', hbefore, howed, hsaid⟩ := take_some hc
    have hstep : (s.step (.take header)).2 = { s with
        row := some { row with seen := s.current, owed := [] }
        taken := s.taken ++ [(c, .flight)]
        movers := s.taken.length :: s.movers } := by
      simp only [Conversation.step, htake]
      rw [show takeContextChange (some row) s.current header = (some { row with seen := s.current, owed := [] }, some c)
        from Prod.ext hrow' hc]
    rw [hstep]
    refine ⟨⟨_, rfl, known_take hknown hbefore howed fun t => ?_⟩, ?_⟩
    · have htells := contextNotice_tells hthere (hknown.up t) hlit
      rwa [hsaid] at htells
    · rw [hmessages]
      simp

theorem sound_write {i : Nat} (h : Sound prompt s) (hs : Relies s (.write i)) : Sound prompt (s.step (.write i)).2 := by
  obtain ⟨⟨row, hrow, hknown⟩, hmessages⟩ := h
  cases hi : s.inFlight i with
  | none =>
    simp only [Conversation.step, hi]
    exact ⟨⟨row, hrow, hknown⟩, hmessages⟩
  | some c =>
    have hat := inFlight_some hi
    simp only [Conversation.step, hi]
    refine ⟨⟨row, hrow, known_write hknown hat⟩, ?_⟩
    obtain ⟨hold, hnew⟩ := History.set_split hat (c, .written)
    -- No message was written for a change taken after this one.
    have hlater : (s.taken.drop (i + 1)).filter (·.2 = .written) = [] := by
      rw [List.filter_eq_nil_iff]
      intro x hx hwritten
      obtain ⟨k, hk⟩ := List.mem_iff_getElem?.1 hx
      rw [List.getElem?_drop] at hk
      have hlt := hs (i + 1 + k) (List.mem_range.2 (List.getElem?_eq_some_iff.1 hk).1)
        (by rw [hk, Option.map_some, of_decide_eq_true hwritten])
      omega
    rw [hmessages, hnew]
    conv_lhs => rw [hold]
    simp [List.filter_append, hlater]

theorem sound_giveBack {i : Nat} (h : Sound prompt s) (hs : Relies s (.giveBack i)) :
    Sound prompt (s.step (.giveBack i)).2 := by
  obtain ⟨⟨row, hrow, hknown⟩, hmessages⟩ := h
  cases hi : s.inFlight i with
  | none =>
    simp only [Conversation.step, hi]
    exact ⟨⟨row, hrow, hknown⟩, hmessages⟩
  | some c =>
    have hat := inFlight_some hi
    have hwritten : (s.taken.set i (c, .returned)).filter (·.2 = .written) = s.taken.filter (·.2 = .written) := by
      obtain ⟨hold, hnew⟩ := History.set_split hat (c, .returned)
      rw [hnew]
      conv_rhs => rw [hold]
      simp [List.filter_append]
    simp only [Conversation.step, hi]
    by_cases hrestores : Restores row c
    · have hex : ∃ row ∈ s.row, Restores row c := ⟨row, hrow, hrestores⟩
      have hlast := hs row hrow c hi hrestores
      obtain ⟨movers, hmovers⟩ : ∃ movers, s.movers = i :: movers := by
        cases hm : s.movers with
        | nil => rw [hm] at hlast; cases hlast
        | cons j movers => rw [hm] at hlast; cases hlast; exact ⟨movers, rfl⟩
      refine ⟨⟨{ row with seen := c.before, owed := c.beforeOwed }, ?_, ?_⟩, ?_⟩
      · simp only [returnContextChange, hrow, Option.map_some, if_pos hrestores]
      · rw [if_pos hex, hmovers, List.erase_cons_head]
        rw [hmovers, hrestores.2] at hknown
        exact known_restore hknown hat
      · rw [hmessages, hwritten]
    · have hex : ¬∃ row ∈ s.row, Restores row c := by
        rintro ⟨row', hrow', h⟩
        rw [hrow] at hrow'
        cases hrow'
        exact hrestores h
      refine ⟨⟨{ row with owed := (row.owed ++ c.told).eraseDups }, ?_, ?_⟩, ?_⟩
      · simp only [returnContextChange, hrow, Option.map_some, if_neg hrestores]
      · rw [if_neg hex]
        exact known_owe hknown hat fun key => by rw [List.mem_eraseDups, List.mem_append]
      · rw [hmessages, hwritten]

theorem sound_step (h : Sound prompt s) (step : Step) (hs : Relies s step) : Sound prompt (s.step step).2 := by
  cases step with
  | change now => exact ⟨h.row, h.messages⟩
  | take header => exact sound_take h hs header
  | write i => exact sound_write h hs
  | giveBack i => exact sound_giveBack h hs

/-- With nothing on its way, what the written messages tell is all that was to be told. -/
theorem heard_settled {v : View} {taken : List (ContextChange × Fate)} (h : ∀ x ∈ taken, x.2 ≠ .flight) :
    heard v taken = ((taken.filter (·.2 = .written)).map (·.1.said)).foldl (fun v n => n.apply v) v := by
  induction taken generalizing v with
  | nil => rfl
  | cons x rest ih =>
    have hrest := fun v => ih (v := v) fun y hy => h y (List.mem_cons_of_mem _ hy)
    obtain ⟨c, fate⟩ := x
    cases fate with
    | flight => exact absurd rfl (h _ List.mem_cons_self)
    | written => exact hrest _
    | returned => exact hrest _

def run (had : Option ContextRow) (start : PromptContext) (started : Bool) (steps : List Step) : Conversation :=
  History.final Conversation.step steps (opened had start started)

/-- A run that ends with no change on its way and none to take, and a text the model was told otherwise of. -/
def Lost (start : PromptContext) (steps : List Step) (t : Topic) : Prop :=
  let s := run none start false steps
  (∀ x ∈ s.taken, x.2 ≠ .flight) ∧ (takeContextChange s.row s.current []).2 = none ∧
    s.known start t ≠ s.current.view t

instance (start : PromptContext) (steps : List Step) (t : Topic) : Decidable (Lost start steps t) :=
  inferInstanceAs (Decidable (_ ∧ _ ∧ _))

def memoryKey : PartKey := ⟨js "state:seed:MEMORY.md", by decide⟩

def todoKey : PartKey := ⟨js "state:doc:todo", by decide⟩

def context (parts : List (PartKey × String)) : PromptContext :=
  ⟨[], parts.map fun p => ⟨p.1, [], js p.2, .agent⟩, []⟩

def memory (text : String) : PromptContext := context [(memoryKey, text)]

/-- A part grows, another goes while its message fails and comes back, and what was owed is told in full. -/
def keptRun : List Step :=
  [.change (context [(memoryKey, "a\nb"), (todoKey, "t")]), .take [],
    .change (context [(memoryKey, "a\nb"), (todoKey, "u")]), .take [], .write 1, .giveBack 0,
    .change (memory "a\nb\nc"), .take [], .giveBack 2, .take [], .write 3]

end Run

end Antiproton.Prompt
