import Antiproton.Core.Js
import Antiproton.Lib.Slices
import Mathlib.Data.List.Induction

/-!
# Antiproton.Memory.ContextSlices

The part of a conversation each run of the memory subagent is shown (`contextSlices`, `src/runtime/memory-shadow.ts`).
A position here is one past the source's: where a slice ends, and not its last entry, so that no entry is position 0.

* `slices_eq`: the slices are the ranges between one write and the next.
* `calls_kept`: what is shown over many calls is one range of the branch.
* `context_slices`: these together.
-/

namespace Antiproton.ContextSlices

open Js Slices

/-! ## Entries -/

inductive Block where
  | toolCall (name : Option Str) (args : Option Json)
  | other
deriving DecidableEq

/-- A message: its content is its blocks, none where it is no list of them. -/
structure Msg where
  role : Str
  content : Option (List Block)
deriving DecidableEq

/-- An entry of a session's branch: its message is none where it is no object. -/
structure BranchEntry where
  id : Option Str
  type : Str
  message : Option Msg
deriving DecidableEq

def messageOf (e : BranchEntry) : Option Msg := if e.type = js "message" then e.message else none

/-- The tool calls an assistant message makes. -/
def callsOf : Option Msg → List (Str × Option Json)
  | some ⟨role, some blocks⟩ =>
    if role = js "assistant" then
      blocks.filterMap fun c => match c with | .toolCall (some name) args => some (name, args) | _ => none
    else []
  | _ => []

def FIRST_CONTEXT_MESSAGES : Nat := 20

/-! ## Slices -/

/-- How many entries hold the last `n` messages, of the entries read from the end. -/
def lastEntries : List BranchEntry → Nat → Nat
  | [], _ => 0
  | _, 0 => 0
  | e :: rest, n + 1 => 1 + lastEntries rest (if (messageOf e).isSome then n else n + 1)

/-- Where the first slice starts. -/
def startOf (entries : List BranchEntry) (since : Option Str) : Nat :=
  match since.bind fun id => entries.findIdx? fun e => e.id == some id with
  | some found => found + 1
  | none => entries.length - lastEntries entries.reverse FIRST_CONTEXT_MESSAGES

section Writes

variable (isWrite : Str → Option Json → Bool)

def writeCount (e : BranchEntry) : Nat := (callsOf (messageOf e)).countP fun c => isWrite c.1 c.2

/-- The entries that write, each as often as it does, by their positions from `i` on. -/
def writesFrom : Nat → List BranchEntry → List Nat
  | _, [] => []
  | i, e :: rest => List.replicate (writeCount isWrite e) i ++ writesFrom (i + 1) rest

/-- One turn of the loop, `k` the number of the run. -/
def slicesFrom (entries : List BranchEntry) (writes : List Nat) : Nat → Nat → Nat → Nat → List (List BranchEntry) × Nat
  | 0, _, _, last => ([], last)
  | runs + 1, k, start, last =>
    let end_ := (writes[k]?.map (· + 1)).getD entries.length
    let stop := max end_ start
    let more := slicesFrom entries writes runs (k + 1) stop (max last stop)
    (between entries start stop :: more.1, more.2)

/-- The id of the entry before a position. -/
def idBefore (entries : List BranchEntry) : Nat → Option Str
  | 0 => none
  | last + 1 => entries[last]?.bind (·.id)

def contextSlices (entries : List BranchEntry) (since : Option Str) (runs : Nat) : List (List BranchEntry) × Option Str :=
  let start := startOf entries since
  let writes := writesFrom isWrite start (entries.drop start)
  let slices := slicesFrom entries writes runs 0 start start
  (slices.1, (idBefore entries slices.2).or since)

end Writes

/-! ## Where a slice ends -/

/-- The position after the `k`-th write, or the branch's end: where the `k`-th slice ends. -/
def stopOf (entries : List BranchEntry) (writes : List Nat) (start : Nat) : Nat → Nat
  | 0 => start
  | k + 1 => (writes[k]?.map (· + 1)).getD entries.length

section Slices

variable {isWrite : Str → Option Json → Bool} {entries more : List BranchEntry} {writes : List Nat} {start i k : Nat}
  {since : Option Str}

theorem lastEntries_le (rest : List BranchEntry) (n : Nat) : lastEntries rest n ≤ rest.length := by
  induction rest generalizing n with
  | nil => exact Nat.zero_le _
  | cons e rest ih =>
    cases n with
    | zero => exact Nat.zero_le _
    | succ n =>
      have hle := ih (if (messageOf e).isSome then n else n + 1)
      rw [lastEntries, List.length_cons]
      omega

theorem startOf_le (entries : List BranchEntry) (since : Option Str) : startOf entries since ≤ entries.length := by
  unfold startOf
  split
  · rename_i found h
    obtain ⟨id, -, hfound⟩ := Option.bind_eq_some_iff.1 h
    exact (List.findIdx?_eq_some_iff_findIdx_eq.1 hfound).1
  · omega

/-- Of the entries from the start on, `n` are messages, unless fewer are there; and with `n` the first is a message. -/
theorem lastEntries_messages (rest : List BranchEntry) (n : Nat) :
    ((rest.take (lastEntries rest n)).countP fun e => (messageOf e).isSome) = min n (rest.countP fun e => (messageOf e).isSome) ∧
    (rest.countP (fun e => (messageOf e).isSome) < n → lastEntries rest n = rest.length) := by
  induction rest generalizing n with
  | nil => exact ⟨by simp [lastEntries], fun _ => rfl⟩
  | cons e rest ih =>
    cases n with
    | zero => exact ⟨by simp [lastEntries], fun h => absurd h (Nat.not_lt_zero _)⟩
    | succ n =>
      rw [lastEntries, Nat.add_comm, List.take_succ_cons, List.countP_cons, List.countP_cons, List.length_cons]
      cases hmessage : (messageOf e).isSome with
      | true =>
        obtain ⟨hcount, hall⟩ := ih n
        simp only [if_true] at hcount ⊢
        refine ⟨by omega, fun h => ?_⟩
        rw [hall (by omega)]
      | false =>
        obtain ⟨hcount, hall⟩ := ih (n + 1)
        simp only [Bool.false_eq_true, if_false] at hcount ⊢
        refine ⟨by omega, fun h => ?_⟩
        rw [hall (by omega)]

theorem mem_writesFrom {w : Nat} (h : w ∈ writesFrom isWrite i entries) :
    i ≤ w ∧ w < i + entries.length ∧ ∃ e, entries[w - i]? = some e ∧ 0 < writeCount isWrite e := by
  induction entries generalizing i with
  | nil => cases h
  | cons e rest ih =>
    rcases List.mem_append.1 h with h | h
    · obtain ⟨hne, rfl⟩ := List.mem_replicate.1 h
      refine ⟨Nat.le_refl _, by rw [List.length_cons]; omega, e, ?_, Nat.pos_of_ne_zero hne⟩
      rw [Nat.sub_self]
      rfl
    · obtain ⟨hle, hlt, e', he', hpos⟩ := ih h
      refine ⟨by omega, by rw [List.length_cons]; omega, e', ?_, hpos⟩
      have hsub : w - i = w - (i + 1) + 1 := by omega
      rw [hsub, List.getElem?_cons_succ, he']

theorem writesFrom_sorted (i : Nat) (entries : List BranchEntry) : (writesFrom isWrite i entries).Pairwise (· ≤ ·) := by
  induction entries generalizing i with
  | nil => exact .nil
  | cons e rest ih =>
    refine List.pairwise_append.2 ⟨List.pairwise_replicate.2 (.inr (Nat.le_refl _)), ih (i + 1), fun a ha b hb => ?_⟩
    rw [List.eq_of_mem_replicate ha]
    have hle := (mem_writesFrom hb).1
    omega

/-- The writes are in the branch, from the start on, and in order. -/
structure Ordered (entries : List BranchEntry) (start : Nat) (writes : List Nat) : Prop where
  fits : start ≤ entries.length
  sorted : writes.Pairwise (· ≤ ·)
  bounds : ∀ w ∈ writes, start ≤ w ∧ w < entries.length

theorem stopOf_mono (h : Ordered entries start writes) (k : Nat) :
    stopOf entries writes start k ≤ stopOf entries writes start (k + 1) ∧ stopOf entries writes start k ≤ entries.length := by
  have hnext : ∀ k, stopOf entries writes start (k + 1) = (writes[k]?.map (· + 1)).getD entries.length := fun _ => rfl
  cases k with
  | zero =>
    refine ⟨?_, h.fits⟩
    rw [hnext]
    cases hw : writes[0]? with
    | none => exact h.fits
    | some w =>
      have hle := (h.bounds w (List.mem_of_getElem? hw)).1
      exact Nat.le_succ_of_le hle
  | succ k =>
    rw [hnext, hnext]
    cases hw : writes[k]? with
    | none =>
      have hlen := List.getElem?_eq_none_iff.1 hw
      rw [List.getElem?_eq_none (by omega)]
      exact ⟨Nat.le_refl _, Nat.le_refl _⟩
    | some w =>
      have hlt := (h.bounds w (List.mem_of_getElem? hw)).2
      refine ⟨?_, hlt⟩
      cases hw' : writes[k + 1]? with
      | none => exact hlt
      | some w' =>
        obtain ⟨hk, rfl⟩ := List.getElem?_eq_some_iff.1 hw
        obtain ⟨hk', rfl⟩ := List.getElem?_eq_some_iff.1 hw'
        exact Nat.succ_le_succ (List.pairwise_iff_getElem.1 h.sorted k (k + 1) hk hk' (Nat.lt_succ_self k))

theorem stopOf_le (h : Ordered entries start writes) {j k : Nat} (hjk : j ≤ k) :
    stopOf entries writes start j ≤ stopOf entries writes start k := by
  induction k with
  | zero => rw [Nat.le_zero.1 hjk]
  | succ k ih =>
    rcases Nat.lt_or_ge j (k + 1) with hlt | hge
    · exact (ih (by omega)).trans (stopOf_mono h k).1
    · rw [Nat.le_antisymm hjk hge]

theorem slicesFrom_eq (h : Ordered entries start writes) (runs k : Nat) :
    slicesFrom entries writes runs k (stopOf entries writes start k) (stopOf entries writes start k) =
      ((List.range' k runs).map fun j => between entries (stopOf entries writes start j) (stopOf entries writes start (j + 1)),
        stopOf entries writes start (k + runs)) := by
  induction runs generalizing k with
  | zero => rfl
  | succ runs ih =>
    have hstop : max ((writes[k]?.map (· + 1)).getD entries.length) (stopOf entries writes start k) =
        stopOf entries writes start (k + 1) := Nat.max_eq_left (stopOf_mono h k).1
    rw [slicesFrom, hstop, Nat.max_eq_right (stopOf_mono h k).1, ih (k + 1), List.range'_succ, List.map_cons, Nat.add_right_comm]
    rfl

theorem flatten_between (h : Ordered entries start writes) (runs k : Nat) :
    ((List.range' k runs).map fun j =>
      between entries (stopOf entries writes start j) (stopOf entries writes start (j + 1))).flatten =
      between entries (stopOf entries writes start k) (stopOf entries writes start (k + runs)) := by
  induction runs generalizing k with
  | zero => exact (between_self entries _).symm
  | succ runs ih =>
    rw [List.range'_succ, List.map_cons, List.flatten_cons, ih (k + 1),
      between_append (stopOf_mono h k).1 (stopOf_le h (by omega)), Nat.add_right_comm]
    rfl

theorem ordered (isWrite : Str → Option Json → Bool) (entries : List BranchEntry) (since : Option Str) :
    Ordered entries (startOf entries since)
      (writesFrom isWrite (startOf entries since) (entries.drop (startOf entries since))) := by
  have hle := startOf_le entries since
  refine ⟨hle, writesFrom_sorted _ _, fun w hw => ?_⟩
  obtain ⟨hstart, hlt, -⟩ := mem_writesFrom hw
  rw [List.length_drop] at hlt
  omega

end Slices

/-! ## One call -/

section Call

variable (isWrite : Str → Option Json → Bool) (entries : List BranchEntry) (since : Option Str)

/-- The writes of a call, in order, each by the position of the message that made it. -/
def writesOf : List Nat := writesFrom isWrite (startOf entries since) (entries.drop (startOf entries since))

/-- Where the `k`-th slice of a call ends. -/
def stop (k : Nat) : Nat := stopOf entries (writesOf isWrite entries since) (startOf entries since) k

theorem slices_eq (runs : Nat) : contextSlices isWrite entries since runs =
    ((List.range runs).map fun k => between entries (stop isWrite entries since k) (stop isWrite entries since (k + 1)),
      (idBefore entries (stop isWrite entries since runs)).or since) := by
  have heq := slicesFrom_eq (ordered isWrite entries since) runs 0
  rw [Nat.zero_add, ← List.range_eq_range'] at heq
  have hzero : stopOf entries (writesFrom isWrite (startOf entries since) (entries.drop (startOf entries since)))
      (startOf entries since) 0 = startOf entries since := rfl
  rw [hzero] at heq
  rw [contextSlices, heq]
  rfl

/-- All the slices of a call are one range of the branch. -/
theorem shown_eq (runs : Nat) : (contextSlices isWrite entries since runs).1.flatten =
    between entries (startOf entries since) (stop isWrite entries since runs) := by
  have hflat := flatten_between (ordered isWrite entries since) runs 0
  rw [Nat.zero_add, ← List.range_eq_range'] at hflat
  rw [slices_eq]
  exact hflat

theorem stop_mono (k : Nat) : stop isWrite entries since k ≤ stop isWrite entries since (k + 1) ∧
    stop isWrite entries since k ≤ entries.length := stopOf_mono (ordered isWrite entries since) k

theorem start_le_stop (k : Nat) : startOf entries since ≤ stop isWrite entries since k :=
  stopOf_le (ordered isWrite entries since) (Nat.zero_le k)

theorem slice_at {runs k : Nat} (h : k < runs) : (contextSlices isWrite entries since runs).1[k]? =
    some (between entries (stop isWrite entries since k) (stop isWrite entries since (k + 1))) := by
  rw [slices_eq, List.getElem?_map, List.getElem?_range h]
  rfl

variable {entries since}

/-- The first slice starts after the marker, or with the last messages. -/
theorem startOf_spec : (∀ id found, since = some id → (entries.findIdx? fun e => e.id == some id) = some found →
      startOf entries since = found + 1) ∧
    ((∀ id, since = some id → (entries.findIdx? fun e => e.id == some id) = none) →
      ((entries.drop (startOf entries since)).countP fun e => (messageOf e).isSome) =
        min FIRST_CONTEXT_MESSAGES (entries.countP fun e => (messageOf e).isSome) ∧
      (entries.countP (fun e => (messageOf e).isSome) < FIRST_CONTEXT_MESSAGES → startOf entries since = 0)) := by
  constructor
  · rintro id found rfl hfound
    rw [startOf, Option.bind_some, hfound]
  · intro hnone
    have hbind : (since.bind fun id => entries.findIdx? fun e => e.id == some id) = none := by
      cases since with
      | none => rfl
      | some id => exact hnone id rfl
    obtain ⟨hcount, hall⟩ := lastEntries_messages entries.reverse FIRST_CONTEXT_MESSAGES
    have hle := lastEntries_le entries.reverse FIRST_CONTEXT_MESSAGES
    rw [List.length_reverse] at hle hall
    rw [List.countP_reverse] at hcount hall
    rw [startOf, hbind]
    dsimp only
    refine ⟨?_, fun h => ?_⟩
    · rw [← hcount, List.take_reverse, List.countP_reverse]
    · rw [hall h, Nat.sub_self]

theorem marker_shown {runs : Nat} (hids : ∀ e ∈ entries, e.id.isSome = true)
    (hshown : startOf entries since < stop isWrite entries since runs) :
    (contextSlices isWrite entries since runs).2 =
      (contextSlices isWrite entries since runs).1.flatten.getLast?.bind (·.id) := by
  have hle := (stop_mono isWrite entries since runs).2
  rw [shown_eq, getLast?_between hshown hle, slices_eq]
  dsimp only
  obtain ⟨last, hlast⟩ := Nat.exists_eq_succ_of_ne_zero (show stop isWrite entries since runs ≠ 0 by omega)
  rw [hlast] at hle ⊢
  rw [idBefore, Nat.succ_sub_one]
  obtain ⟨e, he⟩ : ∃ e, entries[last]? = some e := ⟨_, List.getElem?_eq_getElem hle⟩
  obtain ⟨id, hid⟩ := Option.isSome_iff_exists.1 (hids e (List.mem_of_getElem? he))
  rw [he, Option.bind_some, hid]
  rfl

/-- A write is at the end of its own run's slice, unless the message that made it made the write before it as well. -/
theorem write_slice {runs k w : Nat} (hk : k < runs) (hw : (writesOf isWrite entries since)[k]? = some w) :
    ((∀ j, k = j + 1 → (writesOf isWrite entries since)[j]? ≠ some w) → ∃ slice e,
      (contextSlices isWrite entries since runs).1[k]? = some slice ∧ slice.getLast? = some e ∧ entries[w]? = some e ∧
        0 < writeCount isWrite e) ∧
    ∀ j, k = j + 1 → (writesOf isWrite entries since)[j]? = some w →
      (contextSlices isWrite entries since runs).1[k]? = some [] := by
  have hstop : stop isWrite entries since (k + 1) = w + 1 := by
    have hunfold : stop isWrite entries since (k + 1) =
        ((writesOf isWrite entries since)[k]?.map (· + 1)).getD entries.length := rfl
    rw [hunfold, hw]
    rfl
  have hslice := slice_at isWrite entries since hk
  rw [hstop] at hslice
  obtain ⟨hstart, hlt⟩ := (ordered isWrite entries since).bounds w (List.mem_of_getElem? hw)
  have hprevious : ∀ j, k = j + 1 → stop isWrite entries since k =
      ((writesOf isWrite entries since)[j]?.map (· + 1)).getD entries.length := by
    rintro j rfl
    rfl
  refine ⟨fun hfirst => ?_, fun j hj hsame => ?_⟩
  · have hbefore : stop isWrite entries since k < w + 1 := by
      cases hcases : k with
      | zero => exact Nat.lt_succ_of_le hstart
      | succ j =>
        have hle := (stop_mono isWrite entries since k).1
        rw [hstop] at hle
        have hne := hfirst j hcases
        have hk' : j < (writesOf isWrite entries since).length := by
          have hlen := (List.getElem?_eq_some_iff.1 hw).1
          omega
        rw [← hcases]
        rw [hprevious j hcases, List.getElem?_eq_getElem hk'] at hle ⊢
        rw [List.getElem?_eq_getElem hk'] at hne
        have hne' : (writesOf isWrite entries since)[j] ≠ w := fun heq => hne (congrArg some heq)
        have hle' : (writesOf isWrite entries since)[j] + 1 ≤ w + 1 := hle
        show (writesOf isWrite entries since)[j] + 1 < w + 1
        omega
    obtain ⟨-, -, e, he, hpos⟩ := mem_writesFrom (List.mem_of_getElem? hw)
    rw [List.getElem?_drop, Nat.add_sub_cancel' hstart] at he
    refine ⟨_, e, hslice, ?_, he, hpos⟩
    rw [getLast?_between hbefore hlt, Nat.add_sub_cancel, he]
  · rw [hslice, hprevious j hj, hsame]
    exact congrArg some (between_self entries (w + 1))

end Call

/-! ## Many calls -/

/-- A call: the branch as it is then, and the number of runs. -/
structure SliceCall where
  entries : List BranchEntry
  runs : Nat

/-- The marker kept, and what has been shown. -/
structure Told where
  marker : Option Str
  shown : List BranchEntry

def tell (isWrite : Str → Option Json → Bool) (st : Told) (c : SliceCall) : Told :=
  let answer := contextSlices isWrite c.entries st.marker c.runs
  ⟨answer.2, st.shown ++ answer.1.flatten⟩

/-- Every entry has an id, and no two have one. -/
structure Identified (entries : List BranchEntry) : Prop where
  ids : ∀ e ∈ entries, e.id.isSome = true
  distinct : (entries.map (·.id)).Nodup

/-- What has been shown is one range of the branch, and the marker is its last entry. -/
def OneRange (entries : List BranchEntry) (st : Told) : Prop :=
  st.shown = [] ∨ ∃ a b, a < b ∧ b ≤ entries.length ∧ st.shown = between entries a b ∧
    st.marker = entries[b - 1]?.bind (·.id)

section Calls

variable {isWrite : Str → Option Json → Bool} {entries : List BranchEntry} {st : Told}

theorem startOf_marker (h : Identified entries) {b : Nat} (hpos : 0 < b) (hb : b ≤ entries.length) :
    startOf entries (entries[b - 1]?.bind (·.id)) = b := by
  have hlt : b - 1 < entries.length := by omega
  obtain ⟨id, hid⟩ := Option.isSome_iff_exists.1 (h.ids entries[b - 1] (List.getElem_mem hlt))
  have hmarker : entries[b - 1]?.bind (·.id) = some id := by rw [List.getElem?_eq_getElem hlt, Option.bind_some, hid]
  have hfound : (entries.findIdx? fun e => e.id == some id) = some (b - 1) := by
    rw [List.findIdx?_eq_some_iff_getElem]
    refine ⟨hlt, by rw [hid]; exact beq_self_eq_true _, fun j hj heq => ?_⟩
    have hj' : j < (entries.map (·.id)).length := by rw [List.length_map]; omega
    have hb' : b - 1 < (entries.map (·.id)).length := by rw [List.length_map]; exact hlt
    have hsame : (entries.map (·.id))[j] = (entries.map (·.id))[b - 1] := by
      rw [List.getElem_map, List.getElem_map, hid]
      exact eq_of_beq heq
    have hindex := (List.Nodup.getElem_inj_iff h.distinct).1 hsame
    omega
  rw [hmarker, startOf_spec.1 id (b - 1) rfl hfound]
  omega

theorem tell_keeps (isWrite : Str → Option Json → Bool) (more : List BranchEntry) (h : OneRange entries st) (runs : Nat)
    (hids : Identified (entries ++ more)) :
    OneRange (entries ++ more) (tell isWrite st ⟨entries ++ more, runs⟩) := by
  have hle := start_le_stop isWrite (entries ++ more) st.marker runs
  have hend := (stop_mono isWrite (entries ++ more) st.marker runs).2
  have hmarker : ∀ b, 0 < b → b ≤ (entries ++ more).length → (idBefore (entries ++ more) b).or st.marker =
      (entries ++ more)[b - 1]?.bind (·.id) := by
    intro b hpos hb
    obtain ⟨last, rfl⟩ := Nat.exists_eq_succ_of_ne_zero hpos.ne'
    rw [idBefore, Nat.succ_sub_one]
    obtain ⟨id, hid⟩ := Option.isSome_iff_exists.1 (hids.ids _ (List.getElem_mem hb))
    rw [List.getElem?_eq_getElem hb, Option.bind_some, hid]
    rfl
  have hanswer : (tell isWrite st ⟨entries ++ more, runs⟩).marker =
      (idBefore (entries ++ more) (stop isWrite (entries ++ more) st.marker runs)).or st.marker := by
    rw [tell, slices_eq]
  have hshown : (tell isWrite st ⟨entries ++ more, runs⟩).shown = st.shown ++ between (entries ++ more)
      (startOf (entries ++ more) st.marker) (stop isWrite (entries ++ more) st.marker runs) := by
    rw [tell, shown_eq]
  rcases h with hnone | ⟨a, b, hab, hb, hrange, hlast⟩
  · rcases Nat.lt_or_ge (startOf (entries ++ more) st.marker) (stop isWrite (entries ++ more) st.marker runs) with hlt | hge
    · refine .inr ⟨_, _, hlt, hend, ?_, ?_⟩
      · rw [hshown, hnone, List.nil_append]
      · rw [hanswer]
        exact hmarker _ (by omega) hend
    · refine .inl ?_
      rw [hshown, hnone, Nat.le_antisymm hge hle, between_self, List.nil_append]
  · have hb' : b ≤ (entries ++ more).length := by
      rw [List.length_append]
      omega
    have hstart : startOf (entries ++ more) st.marker = b := by
      have hget : entries[b - 1]? = (entries ++ more)[b - 1]? := (List.getElem?_append_left (by omega)).symm
      rw [hlast, hget]
      exact startOf_marker hids (by omega) hb'
    rw [hstart] at hle hshown
    refine .inr ⟨a, _, Nat.lt_of_lt_of_le hab hle, hend, ?_, ?_⟩
    · rw [hshown, hrange, ← between_grown (m := more) hb, between_append hab.le hle]
    · rw [hanswer]
      exact hmarker _ (by omega) hend

/-- What is shown over many calls, the branch growing between them, is one range of the branch. -/
theorem calls_kept (since : Option Str) (calls : List SliceCall) (c : SliceCall)
    (hgrows : (calls ++ [c]).Pairwise fun c c' => c.entries <+: c'.entries) (hids : ∀ c' ∈ calls ++ [c], Identified c'.entries) :
    OneRange c.entries ((calls ++ [c]).foldl (tell isWrite) ⟨since, []⟩) := by
  induction calls using List.reverseRecOn generalizing c with
  | nil =>
    have hnothing : OneRange [] ⟨since, []⟩ := .inl rfl
    exact tell_keeps isWrite c.entries hnothing c.runs (hids c (by simp))
  | append_singleton calls previous ih =>
    have hbefore := ih previous ((List.pairwise_append.1 hgrows).1) fun c' hc' => hids c' (List.mem_append_left _ hc')
    obtain ⟨more, hmore⟩ := (List.pairwise_append.1 hgrows).2.2 previous (by simp) c (by simp)
    have hkept := tell_keeps isWrite more hbefore c.runs (by
      rw [hmore]
      exact hids c (by simp))
    rw [hmore] at hkept
    rw [List.foldl_append]
    exact hkept

end Calls

/-- The slices of a call are consecutive ranges of the branch that end at the writes, the marker is the last entry shown, and
over many calls nothing is shown twice or passed over. -/
theorem context_slices (isWrite : Str → Option Json → Bool) :
    (∀ (entries : List BranchEntry) (since : Option Str) (runs : Nat),
      (∀ id found, since = some id → (entries.findIdx? fun e => e.id == some id) = some found →
        startOf entries since = found + 1) ∧
      ((∀ id, since = some id → (entries.findIdx? fun e => e.id == some id) = none) →
        ((entries.drop (startOf entries since)).countP fun e => (messageOf e).isSome) =
          min FIRST_CONTEXT_MESSAGES (entries.countP fun e => (messageOf e).isSome) ∧
        (entries.countP (fun e => (messageOf e).isSome) < FIRST_CONTEXT_MESSAGES → startOf entries since = 0)) ∧
      (contextSlices isWrite entries since runs).1 = ((List.range runs).map fun k =>
        between entries (stop isWrite entries since k) (stop isWrite entries since (k + 1))) ∧
      (∀ k, stop isWrite entries since k ≤ stop isWrite entries since (k + 1) ∧ stop isWrite entries since k ≤ entries.length) ∧
      ((∀ e ∈ entries, e.id.isSome = true) → startOf entries since < stop isWrite entries since runs →
        (contextSlices isWrite entries since runs).2 =
          (contextSlices isWrite entries since runs).1.flatten.getLast?.bind (·.id)) ∧
      (startOf entries since = stop isWrite entries since runs →
        (contextSlices isWrite entries since runs).2 = (idBefore entries (startOf entries since)).or since) ∧
      ∀ k w, k < runs → (writesOf isWrite entries since)[k]? = some w →
        ((∀ j, k = j + 1 → (writesOf isWrite entries since)[j]? ≠ some w) → ∃ slice e,
          (contextSlices isWrite entries since runs).1[k]? = some slice ∧ slice.getLast? = some e ∧ entries[w]? = some e ∧
            0 < writeCount isWrite e) ∧
        ∀ j, k = j + 1 → (writesOf isWrite entries since)[j]? = some w →
          (contextSlices isWrite entries since runs).1[k]? = some []) ∧
    ∀ (since : Option Str) (calls : List SliceCall) (c : SliceCall),
      (calls ++ [c]).Pairwise (fun c c' => c.entries <+: c'.entries) → (∀ c' ∈ calls ++ [c], Identified c'.entries) →
      OneRange c.entries ((calls ++ [c]).foldl (tell isWrite) ⟨since, []⟩) := by
  refine ⟨fun entries since runs => ⟨startOf_spec.1, startOf_spec.2, ?_, stop_mono isWrite entries since,
    fun hids => marker_shown isWrite hids, fun hnone => ?_, fun k w hk hw => write_slice isWrite hk hw⟩, calls_kept⟩
  · rw [slices_eq]
  · rw [slices_eq, hnone]

/-- One message that writes twice. -/
def twice : BranchEntry :=
  ⟨some (js "e1"), js "message", some ⟨js "assistant", some [.toolCall (some (js "put")) none, .toolCall (some (js "put")) none]⟩⟩

/-- The second run is shown nothing of the second write. -/
theorem twice_sliced : (writesOf (fun _ _ => true) [twice] none).length = 2 ∧
    contextSlices (fun _ _ => true) [twice] none 2 = ([[twice], []], some (js "e1")) := by
  decide +kernel

end Antiproton.ContextSlices
