import Antiproton.Conversations.Moves

/-!
# Antiproton.Conversations.Appends

Commits to the main transcript. A table of entries or usage holds a log when its rows are the log's, in the order of their
`seq`, all below the number the next write is given; a commit extends the log and moves the number past itself.

* `commit_holds`: what a commit that lands leaves.
* `Logged.read`: what is read of a table by `seq` is its log.
-/

namespace Antiproton.Conversations

open Js

variable {B : Type} {c c' : Catalog Str (Row B)} {s : Str} {p : Page B} {next : Nat}

/-- A table that is there and holds these entries in this order, each under a `seq` below `next`. -/
def Logged (t : Option (List (Row B))) (log : List (Str × B)) (next : Nat) : Prop :=
  ∃ rows, t = some rows ∧ rows.map (fun r => (r.key, r.body)) = log.map (fun e => (([], e.1), some e.2)) ∧
    rows.Pairwise (·.seq < ·.seq) ∧ ∀ r ∈ rows, r.seq < next

theorem logged_nil (next : Nat) : Logged (some ([] : List (Row B))) [] next :=
  ⟨[], rfl, rfl, .nil, fun _ h => absurd h List.not_mem_nil⟩

theorem Logged.mono {t : Option (List (Row B))} {log : List (Str × B)} (h : Logged t log next) : Logged t log (next + 1) := by
  obtain ⟨rows, ht, hlog, hsorted, hlt⟩ := h
  exact ⟨rows, ht, hlog, hsorted, fun r hr => Nat.lt_succ_of_lt (hlt r hr)⟩

theorem Logged.insert {rows rows' : List (Row B)} {log : List (Str × B)} {clash : Row B → Bool} {id : Str} {body : B}
    (h : Logged (some rows) log next) (hins : Table.insert clash ⟨([], id), next, some body⟩ rows = some rows') :
    Logged (some rows') (log ++ [(id, body)]) (next + 1) := by
  obtain ⟨_, heq, hlog, hsorted, hlt⟩ := h
  cases heq
  rw [Table.insert] at hins
  split at hins
  · cases hins
  · cases hins
    refine ⟨_, rfl, ?_, ?_, ?_⟩
    · rw [List.map_append, List.map_append, hlog]
      rfl
    · refine List.pairwise_append.2 ⟨hsorted, List.pairwise_singleton _ _, fun r hr r' hr' => ?_⟩
      rw [List.mem_singleton.1 hr']
      exact hlt r hr
    · intro r hr
      rcases List.mem_append.1 hr with hr | hr
      · exact Nat.lt_succ_of_lt (hlt r hr)
      · rw [List.mem_singleton.1 hr]
        exact Nat.lt_succ_self next

/-- The tables and indexes of a session are there, and hold what a page is owed. -/
structure Holds (c : Catalog Str (Row B)) (s : Str) (p : Page B) (next : Nat) : Prop where
  made : ∀ k, (c.table (piTable s k)).isSome
  indexed : ∀ x, c.index (ixName s x) = some (piTable s x.kind)
  entries : Logged (c.table (piTable s .entries)) p.entries next
  usage : Logged (c.table (piTable s .usage)) p.usage next

theorem Holds.agree (h : Holds c s p next) (ha : Agree c c' s) : Holds c' s p next where
  made k := by rw [ha.table k]; exact h.made k
  indexed x := (ha.index x).trans (h.indexed x)
  entries := by rw [ha.table]; exact h.entries
  usage := by rw [ha.table]; exact h.usage

theorem Logged.read {t : Option (List (Row B))} {log : List (Str × B)} (h : Logged t log next) :
    (Table.orderBy (·.seq) (t.getD [])).map (fun r => (r.key, r.body)) = log.map (fun e => (([], e.1), some e.2)) := by
  obtain ⟨rows, rfl, hlog, hsorted, -⟩ := h
  have hread : Table.orderBy (·.seq) rows = rows := List.Pairwise.insertionSort_eq (hsorted.imp Nat.le_of_lt)
  rw [Option.getD_some, hread, hlog]

/-! ## Writes -/

/-- What a change of the main session's tables leaves of everything else. -/
structure Beside (c c' : Catalog Str (Row B)) : Prop where
  roomy : Roomy c'
  index : c'.index = c.index
  others : ∀ s, Known s → s ≠ MAIN_SESSION → Agree c c' s

theorem Beside.trans {c'' : Catalog Str (Row B)} (h : Beside c c') (h' : Beside c' c'') : Beside c c'' where
  roomy := h'.roomy
  index := h'.index.trans h.index
  others s hs hne := (h.others s hs hne).trans (h'.others s hs hne)

theorem main_known : Known MAIN_SESSION := .inl rfl

theorem change_main {k : Kind} {f : List (Row B) → Option (List (Row B))} (hr : Roomy c)
    (h : c.change (mainTable k) f = some c') : Beside c c' ∧
      (∃ rows rows', c.table (mainTable k) = some rows ∧ f rows = some rows' ∧ c'.table (mainTable k) = some rows') ∧
      ∀ k', k' ≠ k → c'.table (mainTable k') = c.table (mainTable k') := by
  obtain ⟨hroomy, hrows, hkinds, hindex, hothers⟩ := change_known main_known hr h
  exact ⟨⟨hroomy, hindex, hothers⟩, hrows, hkinds⟩

theorem made_after_change {k : Kind} {rows : List (Row B)} (hmade : ∀ k, (c.table (mainTable k)).isSome)
    (hk : c'.table (mainTable k) = some rows) (hothers : ∀ k', k' ≠ k → c'.table (mainTable k') = c.table (mainTable k')) :
    ∀ k, (c'.table (mainTable k)).isSome := by
  intro k'
  by_cases heq : k' = k
  · rw [heq, hk]
    rfl
  · rw [hothers k' heq]
    exact hmade k'

theorem kind_ne_meta (w : Write B) : w.kind ≠ .meta_ := by
  cases w <;> exact Kind.noConfusion

theorem append_entries_other {w : Write B} (h : w.kind ≠ .entries) (p : Page B) : (p.append [w]).entries = p.entries := by
  cases w with
  | entry => exact absurd rfl h
  | usage | value | list => exact List.append_nil _

theorem append_usage_other {w : Write B} (h : w.kind ≠ .usage) (p : Page B) : (p.append [w]).usage = p.usage := by
  cases w with
  | usage => exact absurd rfl h
  | entry | value | list => exact List.append_nil _

theorem append_cons (w : Write B) (rest : List (Write B)) (p : Page B) :
    p.append (w :: rest) = (p.append [w]).append rest := by
  show p.append ([w] ++ rest) = _
  simp only [Page.append, List.filterMap_append, List.append_assoc]

theorem append_nil (p : Page B) : p.append [] = p := by
  simp [Page.append]

/-- One write, under the next number. -/
theorem put_holds {w : Write B} (hr : Roomy c) (h : Holds c MAIN_SESSION p next)
    (hput : c.change (mainTable w.kind) (w.put next) = some c') :
    Beside c c' ∧ Holds c' MAIN_SESSION (p.append [w]) (next + 1) ∧
      c'.table (mainTable .meta_) = c.table (mainTable .meta_) := by
  obtain ⟨hbeside, ⟨rows, rows', hrows, hwrote, hrows'⟩, hothers⟩ := change_main hr hput
  have hmade := made_after_change h.made hrows' hothers
  have hindexed : ∀ x, c'.index (ixName MAIN_SESSION x) = some (piTable MAIN_SESSION x.kind) := by
    intro x
    rw [hbeside.index]
    exact h.indexed x
  have hentries : w.kind ≠ .entries → Logged (c'.table (mainTable .entries)) (p.append [w]).entries (next + 1) := by
    intro hne
    rw [hothers _ hne.symm, append_entries_other hne]
    exact h.entries.mono
  have husage : w.kind ≠ .usage → Logged (c'.table (mainTable .usage)) (p.append [w]).usage (next + 1) := by
    intro hne
    rw [hothers _ hne.symm, append_usage_other hne]
    exact h.usage.mono
  refine ⟨hbeside, ⟨hmade, hindexed, ?_, ?_⟩, hothers _ (kind_ne_meta w).symm⟩
  · cases w with
    | entry id body =>
      have hold : Logged (c.table (mainTable (Write.entry id body).kind)) p.entries next := h.entries
      rw [hrows] at hold
      show Logged (c'.table (mainTable (Write.entry id body).kind)) _ _
      rw [hrows']
      exact hold.insert hwrote
    | usage | value | list => exact hentries Kind.noConfusion
  · cases w with
    | usage id body =>
      have hold : Logged (c.table (mainTable (Write.usage id body).kind)) p.usage next := h.usage
      rw [hrows] at hold
      show Logged (c'.table (mainTable (Write.usage id body).kind)) _ _
      rw [hrows']
      exact hold.insert hwrote
    | entry | value | list => exact husage Kind.noConfusion

theorem putAll_holds {writes : List (Write B)} (hr : Roomy c) (h : Holds c MAIN_SESSION p next)
    (hrun : putAll next writes c = some c') :
    Beside c c' ∧ Holds c' MAIN_SESSION (p.append writes) (next + writes.length) ∧
      c'.table (mainTable .meta_) = c.table (mainTable .meta_) := by
  induction writes generalizing next c p with
  | nil =>
    cases hrun
    exact ⟨⟨hr, rfl, fun _ _ _ => ⟨fun _ => rfl, fun _ => rfl, fun _ => rfl, fun _ => rfl⟩⟩, by rw [append_nil]; exact h, rfl⟩
  | cons w rest ih =>
    obtain ⟨c1, hput, hrest⟩ := Option.bind_eq_some_iff.1 hrun
    obtain ⟨hbeside1, hholds1, hmeta1⟩ := put_holds hr h hput
    obtain ⟨hbeside, hholds, hmeta⟩ := ih hbeside1.roomy hholds1 hrest
    refine ⟨hbeside1.trans hbeside, ?_, hmeta.trans hmeta1⟩
    rw [append_cons, List.length_cons, Nat.add_comm rest.length, ← Nat.add_assoc]
    exact hholds

/-- The number a commit leaves for the next one. -/
theorem nextSeq_set {n : Nat} {rows rows' : List (Row B)} (hset : setNextSeq n rows = some rows')
    (h : c.table (mainTable .meta_) = some rows') : nextSeq c = n := by
  cases hset
  have hone := @Table.one_upsert_self (Row B) (·.key == NEXT_SEQ) ⟨NEXT_SEQ, n, none⟩ (fun r => { r with seq := n })
    (beq_self_eq_true _) (fun _ => rfl) rows
  rw [nextSeq, h, Option.bind_some, hone]
  cases Table.one (fun r : Row B => r.key == NEXT_SEQ) rows <;> rfl

/-- What a commit that lands leaves: the page's log and its own after it. -/
theorem commit_holds {writes : List (Write B)} (hr : Roomy c) (h : Holds c MAIN_SESSION p (nextSeq c))
    (hrun : commitNow writes c = some c') : Beside c c' ∧ Holds c' MAIN_SESSION (p.append writes) (nextSeq c') := by
  obtain ⟨c1, hput, hmark⟩ := Option.bind_eq_some_iff.1 hrun
  obtain ⟨hbeside1, hholds1, hmeta1⟩ := putAll_holds hr h hput
  split at hmark
  · rename_i hnil
    obtain rfl := Option.some.inj hmark
    refine ⟨hbeside1, ?_⟩
    have hsame : nextSeq c1 = nextSeq c := by rw [nextSeq, hmeta1, nextSeq]
    rw [hnil, List.length_nil, Nat.add_zero] at hholds1
    rw [hsame, hnil]
    exact hholds1
  · obtain ⟨hbeside2, ⟨rows, rows', -, hset, hrows'⟩, hothers⟩ := change_main hbeside1.roomy hmark
    refine ⟨hbeside1.trans hbeside2, ?_⟩
    rw [nextSeq_set hset hrows']
    refine ⟨made_after_change hholds1.made hrows' hothers, fun x => ?_, ?_, ?_⟩
    · rw [hbeside2.index]
      exact hholds1.indexed x
    · rw [show piTable MAIN_SESSION .entries = mainTable .entries from rfl, hothers _ Kind.noConfusion]
      exact hholds1.entries
    · rw [show piTable MAIN_SESSION .usage = mainTable .usage from rfl, hothers _ Kind.noConfusion]
      exact hholds1.usage

end Antiproton.Conversations
