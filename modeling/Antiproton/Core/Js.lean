import Mathlib.Data.List.Sort
import Mathlib.Data.List.Basic
import Antiproton.Lib.Table

/-!
# Antiproton.Core.Js

The language values the program computes with: strings as UTF-16 code units, JSON values, and the
two serialisations of them, `JSON.stringify` and `canonJson` (`src/core/canon-json.ts`).

A code unit is a `UInt16`, so a lone surrogate is a value like any other, and `length` counts what
the language's `.length` counts. A number is kept as the text `JSON.stringify` gives it.
-/

namespace Antiproton

/-- A string of the language: its UTF-16 code units. -/
abbrev Str := List UInt16

instance : LawfulBEq Str := inferInstanceAs (LawfulBEq (List UInt16))

namespace Js

/-- The code units of one character. -/
def unitsOf (c : Char) : Str :=
  if c.toNat < 0x10000 then [c.toNat.toUInt16]
  else [(0xD800 + (c.toNat - 0x10000) / 0x400).toUInt16, (0xDC00 + (c.toNat - 0x10000) % 0x400).toUInt16]

/-- The code units of a literal. -/
def js (s : String) : Str := s.toList.flatMap unitsOf

theorem js_append (s t : String) : js (s ++ t) = js s ++ js t := by
  rw [js, String.toList_append, List.flatMap_append]
  rfl

/-- A literal by its characters, which is quick to evaluate. -/
theorem js_ofList (cs : List Char) : js (String.ofList cs) = cs.flatMap unitsOf := by rw [js, String.toList_ofList]

/-- The code unit of an ASCII character. -/
def unit (c : Char) : UInt16 := c.toNat.toUInt16

def isHigh (u : UInt16) : Bool := 0xD800 ≤ u && u ≤ 0xDBFF

def isLow (u : UInt16) : Bool := 0xDC00 ≤ u && u ≤ 0xDFFF

def hexDigit (n : Nat) : UInt16 :=
  if n < 10 then (0x30 + n).toUInt16 else (0x57 + n).toUInt16

/-- `\uXXXX`, in lower-case hexadecimal. -/
def escapeUnit (u : UInt16) : Str :=
  js "\\u" ++ [hexDigit (u.toNat / 4096 % 16), hexDigit (u.toNat / 256 % 16),
    hexDigit (u.toNat / 16 % 16), hexDigit (u.toNat % 16)]

/-- What `JSON.stringify` writes for one code unit that is not half of a pair. -/
def quoteUnit (u : UInt16) : Str :=
  if u = unit '"' then js "\\\""
  else if u = unit '\\' then js "\\\\"
  else if u = 8 then js "\\b"
  else if u = 9 then js "\\t"
  else if u = 10 then js "\\n"
  else if u = 12 then js "\\f"
  else if u = 13 then js "\\r"
  else if u < 0x20 then escapeUnit u
  else if isHigh u || isLow u then escapeUnit u
  else [u]

/-- The inside of a quoted string: a surrogate pair stays, a lone surrogate is escaped. -/
def quoteBody : Str → Str
  | [] => []
  | [u] => quoteUnit u
  | u :: v :: rest =>
    if isHigh u && isLow v then u :: v :: quoteBody rest else quoteUnit u ++ quoteBody (v :: rest)

/-- `JSON.stringify` of a string. -/
def quote (s : Str) : Str := unit '"' :: quoteBody s ++ [unit '"']

/-- The UTF-8 bytes of a code point. -/
def utf8Point (n : Nat) : List UInt8 :=
  if n < 0x80 then [n.toUInt8]
  else if n < 0x800 then [(0xC0 + n / 64).toUInt8, (0x80 + n % 64).toUInt8]
  else if n < 0x10000 then
    [(0xE0 + n / 4096).toUInt8, (0x80 + n / 64 % 64).toUInt8, (0x80 + n % 64).toUInt8]
  else
    [(0xF0 + n / 262144).toUInt8, (0x80 + n / 4096 % 64).toUInt8, (0x80 + n / 64 % 64).toUInt8,
      (0x80 + n % 64).toUInt8]

/-- The bytes of one code unit that is not half of a pair: a lone surrogate is replaced. -/
def utf8Unit (u : UInt16) : List UInt8 := utf8Point (if isHigh u || isLow u then 0xFFFD else u.toNat)

/-- `new TextEncoder().encode(s)`. -/
def utf8 : Str → List UInt8
  | [] => []
  | [u] => utf8Unit u
  | u :: v :: rest =>
    if isHigh u && isLow v then
      utf8Point (0x10000 + (u.toNat - 0xD800) * 0x400 + (v.toNat - 0xDC00)) ++ utf8 rest
    else utf8Unit u ++ utf8 (v :: rest)

/-- White space and line terminators, as `trim` and `\\s` read them. -/
def isSpace (u : UInt16) : Bool :=
  (9 ≤ u && u ≤ 13) || u == 0x20 || u == 0xA0 || u == 0x1680 || (0x2000 ≤ u && u ≤ 0x200A) ||
    u == 0x2028 || u == 0x2029 || u == 0x202F || u == 0x205F || u == 0x3000 || u == 0xFEFF

/-- `s.startsWith(t)`. -/
def startsWith (t s : Str) : Bool := t.isPrefixOf s

/-- `s.endsWith(t)`. -/
def endsWith (t s : Str) : Bool := t.isSuffixOf s

/-- Where `t` starts in `s`, overlapping occurrences included. -/
def occurrences (t s : Str) : List Nat :=
  (List.range (s.length + 1)).filter fun i => startsWith t (s.drop i)

/-- `s.includes(t)`. -/
def includes (t s : Str) : Bool := !(occurrences t s).isEmpty

/-- `s.split(sep)` for a separator of one unit. -/
def splitOn (sep : UInt16) : Str → List Str
  | [] => [[]]
  | u :: rest =>
    if u = sep then [] :: splitOn sep rest
    else
      match splitOn sep rest with
      | [] => [[u]]
      | line :: lines => (u :: line) :: lines

/-- `xs.join(sep)`. -/
def join (sep : Str) : List Str → Str
  | [] => []
  | [x] => x
  | x :: y :: rest => x ++ sep ++ join sep (y :: rest)

theorem join_cons (sep x : Str) {xs : List Str} (h : xs ≠ []) : join sep (x :: xs) = x ++ sep ++ join sep xs := by
  cases xs with
  | nil => exact absurd rfl h
  | cons y rest => rfl

theorem join_append (sep : Str) {xs ys : List Str} (hx : xs ≠ []) (hy : ys ≠ []) :
    join sep (xs ++ ys) = join sep xs ++ sep ++ join sep ys := by
  induction xs with
  | nil => exact absurd rfl hx
  | cons x xs ih =>
    cases xs with
    | nil => exact join_cons sep x hy
    | cons x' xs =>
      rw [List.cons_append, join_cons sep x (by simp), ih (by simp), join_cons sep x (by simp)]
      simp only [List.append_assoc]

theorem infix_join (sep : Str) {x : Str} {xs : List Str} (h : x ∈ xs) : x <:+: join sep xs := by
  induction xs with
  | nil => cases h
  | cons y xs ih =>
    by_cases hxs : xs = []
    · subst hxs
      rw [List.mem_singleton.1 h]
      exact List.infix_rfl
    · rw [join_cons sep y hxs]
      rcases List.mem_cons.1 h with rfl | h
      · exact (List.prefix_append x _).isInfix.trans (List.prefix_append _ _).isInfix
      · exact (ih h).trans (List.suffix_append _ _).isInfix

theorem splitOn_ne_nil (sep : UInt16) (s : Str) : splitOn sep s ≠ [] := by
  cases s with
  | nil => simp [splitOn]
  | cons u rest =>
    unfold splitOn
    split
    · simp
    · split <;> simp

theorem join_splitOn (sep : UInt16) (s : Str) : join [sep] (splitOn sep s) = s := by
  induction s with
  | nil => rfl
  | cons u rest ih =>
    unfold splitOn
    split
    · rename_i h
      rw [join_cons _ _ (splitOn_ne_nil sep rest), ih, h]
      rfl
    · split
      · rename_i h
        exact absurd h (splitOn_ne_nil sep rest)
      · rename_i line more h
        rw [h] at ih
        rw [← ih]
        cases more <;> rfl

/-- Two texts cut at their first separator. -/
theorem cut_at {sep : UInt16} {a a' b b' : Str} (ha : sep ∉ a) (ha' : sep ∉ a') (h : a ++ sep :: b = a' ++ sep :: b') :
    a = a' ∧ b = b' := by
  induction a generalizing a' with
  | nil =>
    cases a' with
    | nil => exact ⟨rfl, (List.cons.inj h).2⟩
    | cons u a' =>
      obtain ⟨rfl, -⟩ := List.cons.inj h
      exact absurd List.mem_cons_self ha'
  | cons u a ih =>
    cases a' with
    | nil =>
      obtain ⟨rfl, -⟩ := List.cons.inj h
      exact absurd List.mem_cons_self ha
    | cons v a' =>
      obtain ⟨rfl, hrest⟩ := List.cons.inj h
      have htail : sep ∉ a := fun hmem => ha (List.mem_cons_of_mem _ hmem)
      have htail' : sep ∉ a' := fun hmem => ha' (List.mem_cons_of_mem _ hmem)
      obtain ⟨rfl, rfl⟩ := ih htail htail' hrest
      exact ⟨rfl, rfl⟩

/-- The values of a `Set`, in the order they were first added, are distinct. -/
theorem nodup_eraseDups {α : Type} [BEq α] [LawfulBEq α] (l : List α) : l.eraseDups.Nodup := by
  induction hlength : l.length using Nat.strong_induction_on generalizing l with
  | _ n ih =>
    subst hlength
    cases l with
    | nil => exact List.nodup_nil
    | cons a l =>
      rw [List.eraseDups_cons, List.nodup_cons, List.mem_eraseDups, List.mem_filter]
      refine ⟨fun h => ?_, ih _ (Nat.lt_succ_of_le (List.length_filter_le _ _)) _ rfl⟩
      rw [beq_self_eq_true] at h
      cases h.2

/-- A `Map` with string keys, in the order the keys were first set. -/
abbrev Map (V : Type) := List (Str × V)

namespace Map

variable {V : Type}

def get (m : Map V) (key : Str) : Option V := (Table.one (·.1 == key) m).map (·.2)

def set (m : Map V) (key : Str) (value : V) : Map V :=
  Table.upsert (·.1 == key) (key, value) (fun r => (r.1, value)) m

theorem get_mem {m : Map V} {key : Str} {value : V} (h : m.get key = some value) : (key, value) ∈ m := by
  obtain ⟨⟨k, v⟩, hr, rfl⟩ := Option.map_eq_some_iff.1 h
  have hkey : k = key := beq_iff_eq.1 (Table.one_some hr :)
  exact hkey ▸ Table.one_mem hr

theorem mem_set {m : Map V} {key : Str} {value : V} {r : Str × V} (h : r ∈ m.set key value) :
    r ∈ m ∨ r = (key, value) := by
  rcases Table.mem_upsert h with h | h | ⟨r', -, hkey, rfl⟩
  · exact .inl h
  · exact .inr h
  · exact .inr (Prod.ext (beq_iff_eq.1 hkey) rfl)

/-- Setting a key leaves the keys in place, and a new one goes last. -/
theorem keys_set (m : Map V) (key : Str) (value : V) :
    (m.set key value).map (·.1) = if key ∈ m.map (·.1) then m.map (·.1) else m.map (·.1) ++ [key] := by
  have hany : m.any (·.1 == key) = true ↔ key ∈ m.map (·.1) := by
    simp only [List.any_eq_true, beq_iff_eq, List.mem_map]
  unfold set Table.upsert
  by_cases h : key ∈ m.map (·.1)
  · rw [if_pos (hany.2 h), if_pos h, Table.update, List.map_map]
    refine List.map_congr_left fun r _ => ?_
    simp only [Function.comp]
    split <;> rfl
  · rw [if_neg (mt hany.1 h), if_neg h, List.map_append]
    rfl

theorem get_set (m : Map V) (key key' : Str) (value : V) :
    (m.set key value).get key' = if key = key' then some value else m.get key' := by
  have h := Table.one_upsert (fun r : Str × V => r.1) (fun r => (r.1, value)) (fun _ => rfl) (key, value) key' m
  unfold get set
  rw [h]
  split
  · cases Table.one (·.1 == key') m <;> rfl
  · rfl

theorem get_isNone (m : Map V) (key : Str) : (m.get key).isNone = true ↔ key ∉ m.map (·.1) := by
  rw [get, Option.isNone_map, Option.isNone_iff_eq_none, Table.one_eq_none]
  simp only [List.mem_map, not_exists, not_and, beq_eq_false_iff_ne, ne_eq]

end Map

end Js

open Js

/-- A JSON value, its object fields in the order the language enumerates them. -/
inductive Json where
  | null
  | bool (b : Bool)
  | num (text : Str)
  | str (s : Str)
  | arr (items : List Json)
  | obj (fields : List (Str × Json))
deriving Repr

namespace Json

mutual

def beq : Json → Json → Bool
  | null, null => true
  | bool a, bool b => a == b
  | num a, num b => a == b
  | str a, str b => a == b
  | arr a, arr b => beqItems a b
  | obj a, obj b => beqFields a b
  | _, _ => false

def beqItems : List Json → List Json → Bool
  | [], [] => true
  | a :: as, b :: bs => beq a b && beqItems as bs
  | _, _ => false

def beqFields : List (Str × Json) → List (Str × Json) → Bool
  | [], [] => true
  | (k, a) :: as, (l, b) :: bs => k == l && beq a b && beqFields as bs
  | _, _ => false

end

mutual

theorem beq_iff : ∀ a b : Json, beq a b = true ↔ a = b
  | null, b => by cases b <;> simp [beq]
  | bool a, b => by cases b <;> simp [beq]
  | num a, b => by cases b <;> simp [beq]
  | str a, b => by cases b <;> simp [beq]
  | arr a, b => by
    cases b with
    | arr b => simp [beq, beqItems_iff a b]
    | _ => simp [beq]
  | obj a, b => by
    cases b with
    | obj b => simp [beq, beqFields_iff a b]
    | _ => simp [beq]

theorem beqItems_iff : ∀ a b : List Json, beqItems a b = true ↔ a = b
  | [], b => by cases b <;> simp [beqItems]
  | a :: as, [] => by simp [beqItems]
  | a :: as, b :: bs => by simp [beqItems, beq_iff a b, beqItems_iff as bs]

theorem beqFields_iff : ∀ a b : List (Str × Json), beqFields a b = true ↔ a = b
  | [], b => by cases b <;> simp [beqFields]
  | (k, a) :: as, [] => by simp [beqFields]
  | (k, a) :: as, (l, b) :: bs => by
    simp [beqFields, beq_iff a b, beqFields_iff as bs]

end

instance : DecidableEq Json := fun a b => decidable_of_iff _ (beq_iff a b)

mutual

/-- `JSON.stringify(v)`. -/
def stringify : Json → Str
  | null => js "null"
  | bool true => js "true"
  | bool false => js "false"
  | num text => text
  | str s => quote s
  | arr items => unit '[' :: join [unit ','] (stringifyItems items) ++ [unit ']']
  | obj fields => unit '{' :: join [unit ','] (stringifyFields fields) ++ [unit '}']

def stringifyItems : List Json → List Str
  | [] => []
  | v :: vs => stringify v :: stringifyItems vs

def stringifyFields : List (Str × Json) → List Str
  | [] => []
  | (k, v) :: fs => (quote k ++ [unit ':'] ++ stringify v) :: stringifyFields fs

end

mutual

/-- The value with the fields of every object in it sorted by key. -/
def canon : Json → Json
  | arr items => arr (canonItems items)
  | obj fields => obj ((canonFields fields).insertionSort fun a b => a.1 ≤ b.1)
  | v => v

def canonItems : List Json → List Json
  | [] => []
  | v :: vs => canon v :: canonItems vs

def canonFields : List (Str × Json) → List (Str × Json)
  | [] => []
  | (k, v) :: fs => (k, canon v) :: canonFields fs

end

/-- `canonJson` (`src/core/canon-json.ts`): the JSON text of the value, the keys of its objects sorted
by code unit at every depth. -/
def canonJson (v : Json) : Str := (canon v).stringify

/-- The value of a field, the last one written under the name. -/
def field? (name : Str) : Json → Option Json
  | obj fields => (fields.find? fun f => f.1 == name).map (·.2)
  | _ => none

/-- A JSON string from a literal or an id. -/
def ofString (s : String) : Json := str (js s)

end Json

end Antiproton
