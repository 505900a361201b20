import Antiproton.Copies.Table
import Antiproton.Core.JsonParse
import Antiproton.Core.Base64
import Antiproton.Lib.Keyset
import Mathlib.Data.List.DropRight
import Mathlib.Data.Prod.Lex
import Mathlib.Data.String.Basic

/-!
# Antiproton.Copies.Pages

The pages of the provider-wide copy (`list`, `encodeCursor` and `decodeCursor`, `cf/src/approvals.ts`): the rows a scope
and a filter match, in the order of their keys, from where the last page ended.

* `after_iff`: the hand-written comparison is the order of the keys.
* `follow_all`: followed to its end, a list answers each matching row once, in order.
* `readPages_finds`: a row past a page's cursor is on a later page, whatever else is written meanwhile.
* `decode_encode`: a cursor a page answers is read back.
-/

namespace Antiproton.Copies

open Js Publish

/-- Where a page ended: the last row's sort key. -/
structure Cursor where
  u : Int
  t : String
  a : String
  o : String
  ids : Ascii t ∧ Ascii a ∧ Ascii o
deriving DecidableEq

structure Scope where
  raftOrigin : String
  tenantId : Option String

/-- The filters of a list, and the rows of a page: at least one, as the route takes it. -/
structure Query where
  status : Option ApprovalState
  updatedSince : Option Int
  limit : { n : Nat // 0 < n }

structure Page where
  rows : List Row
  next : Option Cursor

/-- `ORDER BY updated_at, tenant_id, agent_id, operation_id`. -/
def Row.key (r : Row) : Int ×ₗ String ×ₗ String ×ₗ String :=
  toLex (r.updatedAt, toLex (r.tenantId, toLex (r.agentId, r.operationId)))

def Cursor.key (c : Cursor) : Int ×ₗ String ×ₗ String ×ₗ String := toLex (c.u, toLex (c.t, toLex (c.a, c.o)))

/-- The keyset condition, as the statement spells it. -/
def Cursor.after (c : Cursor) (r : Row) : Bool :=
  decide (c.u < r.updatedAt) || (r.updatedAt == c.u && (decide (c.t < r.tenantId) || (r.tenantId == c.t &&
    (decide (c.a < r.agentId) || (r.agentId == c.a && decide (c.o < r.operationId))))))

def Row.cursor (r : Row) : Cursor := ⟨r.updatedAt, r.tenantId, r.agentId, r.operationId, r.ids⟩

section Lists

variable (agents : List Registered) (scope : Scope) (q : Query)

/-- The rows a list answers from: a deleted agent's are left out, marked or not. -/
def answers (r : Row) : Bool :=
  r.raftOrigin == scope.raftOrigin && r.agentDeletedAt.isNone && (deletedAt agents r.tenantId r.agentId).isNone &&
    (scope.tenantId.all fun t => r.tenantId == t) && (q.status.all fun s => r.status == s) &&
    (q.updatedSince.all fun since => decide (since ≤ r.updatedAt))

/-- The rows that match, in order. -/
def matching (rows : List Row) : List Row := Table.orderBy Row.key (Table.select (answers agents scope q) rows)

def list (after : Option Cursor) (rows : List Row) : Page :=
  let found := (Table.orderBy Row.key
    (Table.select (fun r => answers agents scope q r && after.all fun c => c.after r) rows)).take (q.limit.1 + 1)
  if q.limit.1 < found.length then
    let page := found.take q.limit.1
    ⟨page, page.getLast?.map Row.cursor⟩
  else ⟨found, none⟩

/-- The rows of every page from one on, none where the pages did not end. -/
def follow (rows : List Row) : Nat → Option Cursor → Option (List Row)
  | 0, _ => none
  | n + 1, after =>
    let page := list agents scope q after rows
    match page.next with
    | none => some page.rows
    | some c => (follow rows n (some c)).map (page.rows ++ ·)

end Lists

/-! ## The order of the keys -/

/-- The primary key. -/
def Row.pk (r : Row) : String × String × String := (r.tenantId, r.agentId, r.operationId)

theorem after_iff (c : Cursor) (r : Row) : c.after r = true ↔ c.key < r.key := by
  unfold Cursor.after Cursor.key Row.key
  simp only [Prod.Lex.toLex_lt_toLex, Bool.or_eq_true, Bool.and_eq_true, decide_eq_true_eq, beq_iff_eq]
  rw [eq_comm (a := r.updatedAt), eq_comm (a := r.tenantId), eq_comm (a := r.agentId)]

/-- A row not before the cursor is past it, unless the times are one and its ids do not come after the cursor's. -/
theorem after_of_le {c : Cursor} {r : Row} (h : c.u ≤ r.updatedAt) : c.after r = true ↔ (r.updatedAt = c.u →
    toLex (c.t, toLex (c.a, c.o)) < toLex (r.tenantId, toLex (r.agentId, r.operationId))) := by
  rw [after_iff]
  unfold Cursor.key Row.key
  rw [Prod.Lex.toLex_lt_toLex]
  dsimp only
  constructor
  · rintro (hlt | ⟨-, hlt⟩) heq
    · omega
    · exact hlt
  · intro hids
    rcases Int.lt_or_eq_of_le h with hlt | heq
    · exact .inl hlt
    · exact .inr ⟨heq, hids heq.symm⟩

theorem unique_key {rows : List Row} (h : Table.Unique Row.pk rows) : Table.Unique Row.key rows := by
  have hpk : rows.map Row.pk = (rows.map Row.key).map fun k =>
      ((ofLex (ofLex k).2).1, (ofLex (ofLex (ofLex k).2).2).1, (ofLex (ofLex (ofLex k).2).2).2) := by
    rw [List.map_map]
    rfl
  unfold Table.Unique at h
  rw [hpk] at h
  exact h.of_map _

section Order

variable {agents : List Registered} {scope : Scope} {q : Query} {rows : List Row}

theorem mem_matching {r : Row} : r ∈ matching agents scope q rows ↔ r ∈ rows ∧ answers agents scope q r = true := by
  unfold matching
  rw [(Table.orderBy_perm ..).mem_iff, Table.select, List.mem_filter]

theorem ascending_matching (h : Table.Unique Row.pk rows) : Keyset.Ascending Row.key (matching agents scope q rows) :=
  Table.pairwise_lt_orderBy (List.Nodup.sublist (List.filter_sublist.map _) (unique_key h))

theorem past_matching (after : Option Cursor) : Keyset.past Row.key (after.map Cursor.key) (matching agents scope q rows) =
    (matching agents scope q rows).filter fun r => after.all fun c => c.after r := by
  refine List.filter_congr fun r _ => ?_
  cases after with
  | none => rfl
  | some c =>
    rw [Bool.eq_iff_iff]
    simp [after_iff]

/-- A list answers a page of the rows that match, by their keys. -/
theorem list_eq (agents : List Registered) (scope : Scope) (q : Query) {rows : List Row} (h : Table.Unique Row.pk rows)
    (after : Option Cursor) :
    (list agents scope q after rows).rows =
      (Keyset.page Row.key q.limit.1 (after.map Cursor.key) (matching agents scope q rows)).1 ∧
    (list agents scope q after rows).next.map Cursor.key =
      (Keyset.page Row.key q.limit.1 (after.map Cursor.key) (matching agents scope q rows)).2 := by
  have hsub : Table.Unique Row.key (Table.select (answers agents scope q) rows) :=
    List.Nodup.sublist (List.filter_sublist.map _) (unique_key h)
  have hfound : Table.orderBy Row.key (Table.select (fun r => answers agents scope q r && after.all fun c => c.after r) rows) =
      Keyset.past Row.key (after.map Cursor.key) (matching agents scope q rows) := by
    have hsplit : Table.select (fun r => answers agents scope q r && after.all fun c => c.after r) rows =
        Table.select (fun r => after.all fun c => c.after r) (Table.select (answers agents scope q) rows) := by
      unfold Table.select
      rw [List.filter_filter]
      exact List.filter_congr fun r _ => Bool.and_comm ..
    rw [hsplit, Table.orderBy_select hsub]
    exact (past_matching after).symm
  unfold list Keyset.page
  dsimp only
  rw [hfound]
  split
  · refine ⟨rfl, ?_⟩
    rw [Option.map_map]
    rfl
  · exact ⟨rfl, rfl⟩

theorem follow_eq (h : Table.Unique Row.pk rows) (n : Nat) (after : Option Cursor) :
    follow agents scope q rows n after =
      Keyset.follow Row.key q.limit.1 (matching agents scope q rows) n (after.map Cursor.key) := by
  induction n generalizing after with
  | zero => rfl
  | succ n ih =>
    obtain ⟨hrows, hnext⟩ := list_eq agents scope q h after
    unfold follow Keyset.follow
    dsimp only
    rw [← hrows, ← hnext]
    cases (list agents scope q after rows).next with
    | none => rfl
    | some c =>
      dsimp only [Option.map_some]
      rw [ih (some c)]
      rfl

/-- The pages from a cursor on are the rows that match past it, in order, and end. -/
theorem follow_all (h : Table.Unique Row.pk rows) (after : Option Cursor) {n : Nat}
    (hn : (matching agents scope q rows).length < n) :
    follow agents scope q rows n after =
      some ((matching agents scope q rows).filter fun r => after.all fun c => c.after r) := by
  have hlen : (Keyset.past Row.key (after.map Cursor.key) (matching agents scope q rows)).length ≤
      (matching agents scope q rows).length := List.length_filter_le ..
  rw [follow_eq h, Keyset.follow_past (ascending_matching h) q.limit.2 (by omega), past_matching]

end Order

/-! ## Pages of a copy that changes -/

/-- The registry and the copy, as a page reads them. -/
structure Read where
  agents : List Registered
  rows : List Row

/-- The rows of the pages read one after another, and where a reading that has not ended stands. -/
def readPages (scope : Scope) (q : Query) : List Read → Option Cursor → List Row × Option (Option Cursor)
  | [], after => ([], some after)
  | s :: rest, after =>
    let page := list s.agents scope q after s.rows
    match page.next with
    | none => (page.rows, none)
    | some c => (page.rows ++ (readPages scope q rest (some c)).1, (readPages scope q rest (some c)).2)

section Reads

variable {scope : Scope} {q : Query} {reads : List Read}

theorem readPages_eq (scope : Scope) (q : Query) {reads : List Read} (h : ∀ s ∈ reads, Table.Unique Row.pk s.rows) (after : Option Cursor) :
    (readPages scope q reads after).1 = (Keyset.walk Row.key q.limit.1
      (reads.map fun s => matching s.agents scope q s.rows) (after.map Cursor.key)).1 ∧
    (readPages scope q reads after).2.map (·.map Cursor.key) = (Keyset.walk Row.key q.limit.1
      (reads.map fun s => matching s.agents scope q s.rows) (after.map Cursor.key)).2 := by
  induction reads generalizing after with
  | nil => exact ⟨rfl, rfl⟩
  | cons s rest ih =>
    obtain ⟨hrows, hnext⟩ := list_eq s.agents scope q (h s List.mem_cons_self) after
    rw [List.map_cons]
    unfold readPages Keyset.walk
    dsimp only
    rw [← hrows, ← hnext]
    cases (list s.agents scope q after s.rows).next with
    | none => exact ⟨rfl, rfl⟩
    | some c =>
      obtain ⟨ih₁, ih₂⟩ := ih (fun s' hs' => h s' (List.mem_cons_of_mem _ hs')) (some c)
      dsimp only [Option.map_some]
      rw [ih₁]
      exact ⟨rfl, ih₂⟩

/-- A hold past a page's cursor, and none of its writes moves back, is on a later page of a reading that ends. -/
theorem readPages_finds {k : Row} {after : Option Cursor} (h : ∀ s ∈ reads, Table.Unique Row.pk s.rows)
    (hstays : ∀ s ∈ reads, ∃ r ∈ s.rows, r.pk = k.pk ∧ answers s.agents scope q r = true)
    (hforward : reads.Pairwise fun s s' => ∀ r ∈ s.rows, ∀ r' ∈ s'.rows, r.pk = k.pk → r'.pk = k.pk → r.key ≤ r'.key)
    (hpast : ∀ s ∈ reads.head?, ∀ r ∈ s.rows, r.pk = k.pk → ∀ c, after = some c → c.after r = true)
    (hend : (readPages scope q reads after).2 = none) : ∃ r ∈ (readPages scope q reads after).1, r.pk = k.pk := by
  obtain ⟨hrows, hstands⟩ := readPages_eq scope q h after
  rw [hend, Option.map_none] at hstands
  rw [hrows]
  refine Keyset.walk_finds q.limit.2 ?_ ?_ ?_ hstands.symm
  · intro l hl
    obtain ⟨s, hs, rfl⟩ := List.mem_map.1 hl
    obtain ⟨r, hr, hpk, hans⟩ := hstays s hs
    exact ⟨ascending_matching (h s hs), r, mem_matching.2 ⟨hr, hans⟩, hpk⟩
  · refine List.pairwise_map.2 (hforward.imp fun hle r hr r' hr' => ?_)
    exact hle r (mem_matching.1 hr).1 r' (mem_matching.1 hr').1
  · intro l hl r hr hpk key heq
    rw [List.head?_map] at hl
    obtain ⟨s, hs, rfl⟩ := Option.map_eq_some_iff.1 hl
    obtain ⟨c, hc, rfl⟩ := Option.map_eq_some_iff.1 heq
    exact (after_iff c r).1 (hpast s hs r (mem_matching.1 hr).1 hpk c hc)

end Reads

/-! ## Cursors as text -/

def encodeCursor (c : Cursor) : Option Str :=
  (btoa (Json.stringify (.obj [(js "u", .num (decimal c.u)), (js "t", .str (js c.t)), (js "a", .str (js c.a)),
    (js "o", .str (js c.o))]))).map fun s =>
      ((s.map fun u => if u = unit '+' then unit '-' else u).map fun u => if u = unit '/' then unit '_' else u).rdropWhile
        (· == unit '=')

/-- A cursor as it is read: its number as it is written. -/
structure RawCursor where
  u : Str
  t : Str
  a : Str
  o : Str
deriving DecidableEq

def decodeCursor (s : Str) : Option RawCursor :=
  match atob ((s.map fun u => if u = unit '-' then unit '+' else u).map fun u => if u = unit '_' then unit '/' else u) with
  | none => none
  | some text =>
    match parse text with
    | none => none
    | some c =>
      match c.field? (js "u"), c.field? (js "t"), c.field? (js "a"), c.field? (js "o") with
      | some (.num u), some (.str t), some (.str a), some (.str o) => some ⟨u, t, a, o⟩
      | _, _, _, _ => none

def Cursor.raw (c : Cursor) : RawCursor := ⟨decimal c.u, js c.t, js c.a, js c.o⟩

/-- ASCII stays as it is, or is written in ASCII. -/
theorem quote_ascii {s : Str} (h : ∀ u ∈ s, u < 128) : ∀ u ∈ quote s, u < 256 := by
  have hunit (u : UInt16) (hu : u < 128) : ∀ v ∈ quoteUnit u, v < 256 := by
    have hlt := UInt16.lt_iff_toNat_lt.1 hu
    obtain ⟨n, hn, rfl⟩ : ∃ n < 128, u = UInt16.ofNat n := ⟨u.toNat, hlt, by simp⟩
    have hall : (quoteUnit (UInt16.ofNat n)).all (fun v => decide (v < 256)) = true := by
      interval_cases n <;> decide
    exact fun v hv => of_decide_eq_true (List.all_eq_true.1 hall v hv)
  have hbody : ∀ u ∈ quoteBody s, u < 256 := by
    induction s using quoteBody.induct with
    | case1 => simp [quoteBody]
    | case2 u => exact hunit u (h u (by simp))
    | case3 u v rest hpair ih =>
      have hhigh := high_bounds (Bool.and_eq_true_iff.1 hpair).1
      have hlt := UInt16.lt_iff_toNat_lt.1 (h u (by simp))
      have : (128 : UInt16).toNat = 128 := by decide
      omega
    | case4 u v rest hpair ih =>
      rw [quoteBody, if_neg hpair]
      intro w hw
      rcases List.mem_append.1 hw with hw | hw
      · exact hunit u (h u (by simp)) w hw
      · exact ih (fun x hx => h x (List.mem_cons_of_mem _ hx)) w hw
  intro u hu
  rw [quote, List.mem_append, List.mem_cons] at hu
  rcases hu with (rfl | hu) | hu
  · decide
  · exact hbody u hu
  · rw [List.mem_singleton.1 hu]
    decide

/-- The value a cursor is written as. -/
def Cursor.json (c : Cursor) : Json :=
  .obj [(js "u", .num (decimal c.u)), (js "t", .str (js c.t)), (js "a", .str (js c.a)), (js "o", .str (js c.o))]

theorem decimal_lt (n : Int) : ∀ u ∈ decimal n, u < 256 := by
  have hdigit {u : UInt16} (h : isDigit u = true) : u < 256 := by
    simp only [isDigit, Bool.and_eq_true, decide_eq_true_eq] at h
    exact UInt16.lt_of_le_of_lt h.2 (by decide)
  have hnat (m : Nat) : ∀ u ∈ js (toString m), u < 256 := by
    obtain ⟨c, rest, heq, hd, -⟩ := decimal_nat m
    intro u hu
    exact hdigit (hd u (heq ▸ hu))
  cases n with
  | ofNat m => exact hnat m
  | negSucc m =>
    intro u hu
    have hu : u ∈ js ("-" ++ toString (m + 1)) := hu
    rw [js, String.toList_append, List.flatMap_append, List.mem_append] at hu
    rcases hu with hu | hu
    · have hminus : u ∈ [unit '-'] := hu
      rw [List.mem_singleton.1 hminus]
      decide
    · exact hnat (m + 1) u hu

theorem cursor_latin (c : Cursor) : ∀ u ∈ c.json.stringify, u < 256 := by
  obtain ⟨ht, ha, ho⟩ := c.ids
  have hopen : unit '\x7b' < 256 := by decide
  have hclose : unit '\x7d' < 256 := by decide
  have hcolon : unit ':' < 256 := by decide
  have hcomma : unit ',' < 256 := by decide
  simp only [Cursor.json, Json.stringify, Json.stringifyFields, join, List.forall_mem_append, List.forall_mem_cons,
    List.append_assoc, hopen, hclose, hcolon, hcomma, List.not_mem_nil, false_imp_iff, implies_true, and_true, true_and]
  have hu : Ascii "u" := by decide
  have hts : Ascii "t" := by decide
  have has : Ascii "a" := by decide
  have hos : Ascii "o" := by decide
  exact ⟨quote_ascii hu, decimal_lt _, quote_ascii hts, quote_ascii ht, quote_ascii has, quote_ascii ha, quote_ascii hos,
    quote_ascii ho⟩

/-- The four keys are no indices and each is there once. -/
theorem ofEntries_cursor (u t a o : Json) :
    ofEntries [(js "u", u), (js "t", t), (js "a", a), (js "o", o)] = [(js "u", u), (js "t", t), (js "a", a), (js "o", o)] := by
  have hu : indexOf? (js "u") = none := by decide
  have ht : indexOf? (js "t") = none := by decide
  have ha : indexOf? (js "a") = none := by decide
  have ho : indexOf? (js "o") = none := by decide
  have hset : [(js "u", u), (js "t", t), (js "a", a), (js "o", o)].foldl setField [] =
      [(js "u", u), (js "t", t), (js "a", a), (js "o", o)] := by
    have hut : (js "u" == js "t") = false := by decide
    have hua : (js "u" == js "a") = false := by decide
    have huo : (js "u" == js "o") = false := by decide
    have hta : (js "t" == js "a") = false := by decide
    have hto : (js "t" == js "o") = false := by decide
    have hao : (js "a" == js "o") = false := by decide
    simp [setField, hut, hua, huo, hta, hto, hao]
  rw [ofEntries, hset]
  simp [hu, ht, ha, ho, Table.orderBy]

theorem written_json (c : Cursor) : Written c.json :=
  ⟨ofEntries_cursor _ _ _ _, decimal_isNumber c.u, trivial, trivial, trivial, trivial⟩

/-- The alphabet of cursors: `-` and `_` for `+` and `/`. -/
def urlUnit (u : UInt16) : UInt16 :=
  if (if u = unit '+' then unit '-' else u) = unit '/' then unit '_' else if u = unit '+' then unit '-' else u

def plainUnit (u : UInt16) : UInt16 :=
  if (if u = unit '-' then unit '+' else u) = unit '_' then unit '/' else if u = unit '-' then unit '+' else u

theorem urlUnit_sextet {n : Nat} (h : n < 64) : plainUnit (urlUnit (sextetUnit n)) = sextetUnit n ∧
    urlUnit (sextetUnit n) ≠ unit '=' := by
  interval_cases n <;> decide

theorem rdropWhile_pad {l : Str} (h : ∀ v ∈ l, v ≠ unit '=') (n : Nat) :
    (l ++ List.replicate n (unit '=')).rdropWhile (· == unit '=') = l := by
  induction n with
  | zero =>
    rw [List.replicate_zero, List.append_nil, List.rdropWhile_eq_self_iff]
    intro hl heq
    exact h _ (List.getLast_mem hl) (beq_iff_eq.1 heq)
  | succ n ih => rw [List.replicate_succ', ← List.append_assoc, List.rdropWhile_concat_pos _ _ _ (by simp), ih]

/-- A cursor as it is written: the sixes of its text, in the alphabet of cursors. -/
theorem encodeCursor_eq (c : Cursor) : encodeCursor c = some ((encodeSextets c.json.stringify).map urlUnit) := by
  have hlatin := cursor_latin c
  have hall : (c.json.stringify.all fun u => decide (u < 256)) = true :=
    List.all_eq_true.2 fun u hu => decide_eq_true (hlatin u hu)
  have hne : ∀ v ∈ (encodeSextets c.json.stringify).map urlUnit, v ≠ unit '=' := by
    intro v hv
    obtain ⟨u, hu, rfl⟩ := List.mem_map.1 hv
    obtain ⟨n, hn, rfl⟩ := mem_encodeSextets hlatin hu
    exact (urlUnit_sextet hn).2
  have hbtoa : btoa c.json.stringify = some (encodeSextets c.json.stringify ++
      List.replicate ((4 - (encodeSextets c.json.stringify).length % 4) % 4) (unit '=')) := if_pos hall
  have hpad : urlUnit (unit '=') = unit '=' := by decide
  show (btoa c.json.stringify).map _ = _
  rw [hbtoa, Option.map_some, List.map_map, List.map_append, List.map_replicate]
  have hdrop := rdropWhile_pad hne ((4 - (encodeSextets c.json.stringify).length % 4) % 4)
  exact congrArg some hdrop

theorem decode_encode (c : Cursor) : (encodeCursor c).bind decodeCursor = some c.raw := by
  have hback : ((encodeSextets c.json.stringify).map urlUnit).map plainUnit = encodeSextets c.json.stringify := by
    rw [List.map_map]
    refine (List.map_congr_left fun v hv => ?_).trans (List.map_id _)
    obtain ⟨n, hn, rfl⟩ := mem_encodeSextets (cursor_latin c) hv
    exact (urlUnit_sextet hn).1
  have hplain (s : Str) : decodeCursor s = match atob (s.map plainUnit) with
      | none => none
      | some text =>
        match parse text with
        | none => none
        | some v =>
          match v.field? (js "u"), v.field? (js "t"), v.field? (js "a"), v.field? (js "o") with
          | some (.num u), some (.str t), some (.str a), some (.str o) => some ⟨u, t, a, o⟩
          | _, _, _, _ => none := by
    unfold decodeCursor
    rw [List.map_map]
    rfl
  rw [encodeCursor_eq, Option.bind_some, hplain, hback, atob_unpadded (cursor_latin c)]
  dsimp only
  rw [parse_stringify (written_json c)]
  rfl

end Antiproton.Copies
