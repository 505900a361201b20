import Antiproton.Core.JsonText

/-!
# Antiproton.Core.JsonParse

`JSON.parse`: the text of one value, white space around its tokens, an object's fields in the order the language
enumerates them. A number is kept as it is written.

* `parse_stringify`: `JSON.parse` of what `JSON.stringify` writes is the value.
-/

namespace Antiproton

namespace Js

/-! ## Tokens -/

def isBlank (u : UInt16) : Bool := u == 0x20 || u == 9 || u == 10 || u == 13

def hexOf (u : UInt16) : Option Nat :=
  if 0x30 ≤ u ∧ u ≤ 0x39 then some (u.toNat - 0x30)
  else if 0x61 ≤ u ∧ u ≤ 0x66 then some (u.toNat - 0x57)
  else if 0x41 ≤ u ∧ u ≤ 0x46 then some (u.toNat - 0x37)
  else none

/-- What stands after a backslash, but for `u`. -/
def escapeOf (u : UInt16) : Option UInt16 :=
  if u = unit '"' ∨ u = unit '\\' ∨ u = unit '/' then some u
  else if u = unit 'b' then some 8
  else if u = unit 't' then some 9
  else if u = unit 'n' then some 10
  else if u = unit 'f' then some 12
  else if u = unit 'r' then some 13
  else none

/-- The inside of a string, up to its closing quote, and what follows that. -/
def parseString : Str → Option (Str × Str)
  | [] => none
  | c :: rest =>
    if c = unit '"' then some ([], rest)
    else if c < 0x20 then none
    else if c = unit '\\' then
      match rest with
      | e :: rest =>
        if e = unit 'u' then
          match rest with
          | a :: b :: c :: d :: rest =>
            match hexOf a, hexOf b, hexOf c, hexOf d with
            | some a, some b, some c, some d =>
              (parseString rest).map fun p => ((((a * 16 + b) * 16 + c) * 16 + d).toUInt16 :: p.1, p.2)
            | _, _, _, _ => none
          | _ => none
        else
          match escapeOf e with
          | some u => (parseString rest).map fun p => (u :: p.1, p.2)
          | none => none
      | [] => none
    else (parseString rest).map fun p => (c :: p.1, p.2)

def isDigit (u : UInt16) : Bool := 0x30 ≤ u && u ≤ 0x39

/-- `Number` of decimal digits. -/
def numberOf (digits : Str) : Nat := digits.foldl (fun n u => 10 * n + (u.toNat - 48)) 0

/-- At least one digit. -/
def parseDigits (s : Str) : Option (Str × Str) :=
  if s.takeWhile isDigit = [] then none else some (s.takeWhile isDigit, s.dropWhile isDigit)

def parseInteger : Str → Option (Str × Str)
  | c :: rest => if c = unit '0' then some ([c], rest) else parseDigits (c :: rest)
  | [] => none

def parseFraction : Str → Option (Str × Str)
  | c :: rest => if c = unit '.' then (parseDigits rest).map fun p => (c :: p.1, p.2) else some ([], c :: rest)
  | [] => some ([], [])

def parseExponent : Str → Option (Str × Str)
  | c :: rest =>
    if c = unit 'e' ∨ c = unit 'E' then
      match rest with
      | d :: rest' =>
        if d = unit '+' ∨ d = unit '-' then (parseDigits rest').map fun p => (c :: d :: p.1, p.2)
        else (parseDigits rest).map fun p => (c :: p.1, p.2)
      | [] => none
    else some ([], c :: rest)
  | [] => some ([], [])

def parseNumber (s : Str) : Option (Str × Str) :=
  let (sign, s) := match s with
    | c :: rest => if c = unit '-' then ([c], rest) else ([], c :: rest)
    | [] => ([], [])
  match parseInteger s with
  | none => none
  | some (int, s) =>
    match parseFraction s with
    | none => none
    | some (frac, s) => (parseExponent s).map fun p => (sign ++ int ++ frac ++ p.1, p.2)

/-! ## Objects -/

/-- A key the language enumerates first, in numeric order: an array index. -/
def indexOf? (key : Str) : Option Nat :=
  if key = [] ∨ !key.all isDigit ∨ (key.head? = some (unit '0') ∧ key ≠ [unit '0']) then none
  else
    let n := key.foldl (fun n u => n * 10 + (u.toNat - 0x30)) 0
    if n < 4294967295 then some n else none

def setField (fields : List (Str × Json)) (f : Str × Json) : List (Str × Json) :=
  if fields.any (·.1 == f.1) then fields.map fun g => if g.1 == f.1 then f else g else fields ++ [f]

/-- An object's fields as they are enumerated, given what was written in order. -/
def ofEntries (entries : List (Str × Json)) : List (Str × Json) :=
  let fields := entries.foldl setField []
  Table.orderBy (fun f => (indexOf? f.1).getD 0) (fields.filter fun f => (indexOf? f.1).isSome) ++
    fields.filter fun f => (indexOf? f.1).isNone

/-! ## Values -/

def literal (word : String) (v : Json) (s : Str) : Option (Json × Str) :=
  if startsWith (js word) s then some (v, s.drop (js word).length) else none

mutual

/-- A value at the head of the text; the fuel bounds the values read. -/
def parseValue : Nat → Str → Option (Json × Str)
  | 0, _ => none
  | n + 1, s =>
    match s.dropWhile isBlank with
    | [] => none
    | c :: rest =>
      if c = unit '"' then (parseString rest).map fun p => (.str p.1, p.2)
      else if c = unit '[' then
        match rest.dropWhile isBlank with
        | [] => none
        | d :: rest' => if d = unit ']' then some (.arr [], rest') else (parseItems n rest).map fun p => (.arr p.1, p.2)
      else if c = unit '{' then
        match rest.dropWhile isBlank with
        | [] => none
        | d :: rest' =>
          if d = unit '}' then some (.obj [], rest') else (parseFields n rest).map fun p => (.obj (ofEntries p.1), p.2)
      else if c = unit 't' then literal "true" (.bool true) (c :: rest)
      else if c = unit 'f' then literal "false" (.bool false) (c :: rest)
      else if c = unit 'n' then literal "null" .null (c :: rest)
      else (parseNumber (c :: rest)).map fun p => (.num p.1, p.2)

def parseItems : Nat → Str → Option (List Json × Str)
  | 0, _ => none
  | n + 1, s =>
    match parseValue n s with
    | none => none
    | some (v, s) =>
      match s.dropWhile isBlank with
      | [] => none
      | c :: rest =>
        if c = unit ']' then some ([v], rest)
        else if c = unit ',' then (parseItems n rest).map fun p => (v :: p.1, p.2)
        else none

def parseFields : Nat → Str → Option (List (Str × Json) × Str)
  | 0, _ => none
  | n + 1, s =>
    match s.dropWhile isBlank with
    | [] => none
    | c :: rest =>
      if c = unit '"' then
        match parseString rest with
        | none => none
        | some (k, s) =>
          match s.dropWhile isBlank with
          | [] => none
          | c :: rest =>
            if c = unit ':' then
              match parseValue n rest with
              | none => none
              | some (v, s) =>
                match s.dropWhile isBlank with
                | [] => none
                | c :: rest =>
                  if c = unit '}' then some ([(k, v)], rest)
                  else if c = unit ',' then (parseFields n rest).map fun p => ((k, v) :: p.1, p.2)
                  else none
            else none
      else none

end

/-- `JSON.parse(s)`, none where it throws. -/
def parse (s : Str) : Option Json :=
  match parseValue (s.length + 1) s with
  | none => none
  | some (v, rest) => if rest.all isBlank then some v else none

/-! ## A string read back -/

theorem hexOf_hexDigit {n : Nat} (h : n < 16) : hexOf (hexDigit n) = some n := by
  interval_cases n <;> decide

theorem parseString_plain {u : UInt16} (hq : u ≠ unit '"') (hb : u ≠ unit '\\') (hc : ¬u < 0x20) (y : Str) :
    parseString (u :: y) = (parseString y).map fun p => (u :: p.1, p.2) := by
  rw [parseString.eq_def]
  dsimp only
  rw [if_neg hq, if_neg hc, if_neg hb]

theorem parseString_close (x : Str) : parseString (unit '"' :: x) = some ([], x) := by
  rw [parseString.eq_def]
  dsimp only
  rw [if_pos rfl]

theorem parseString_escape (u : UInt16) (y : Str) :
    parseString (escapeUnit u ++ y) = (parseString y).map fun p => (u :: p.1, p.2) := by
  have hlt := u.toNat_lt
  have hvalue : (((u.toNat / 4096 % 16 * 16 + u.toNat / 256 % 16) * 16 + u.toNat / 16 % 16) * 16 + u.toNat % 16) = u.toNat := by
    omega
  have hback : u.toNat.toUInt16 = u := by simp
  have hjs : js "\\u" = [unit '\\', unit 'u'] := by decide
  rw [escapeUnit, hjs]
  simp only [List.cons_append, List.nil_append]
  rw [parseString.eq_def]
  dsimp only
  rw [if_neg (by decide), if_neg (by decide), if_pos rfl, if_pos rfl, hexOf_hexDigit (Nat.mod_lt _ (by decide)),
    hexOf_hexDigit (Nat.mod_lt _ (by decide)), hexOf_hexDigit (Nat.mod_lt _ (by decide)),
    hexOf_hexDigit (Nat.mod_lt _ (by decide))]
  dsimp only
  rw [hvalue, hback]

theorem parseString_short {e u : UInt16} (he : e ≠ unit 'u') (hu : escapeOf e = some u) (y : Str) :
    parseString (unit '\\' :: e :: y) = (parseString y).map fun p => (u :: p.1, p.2) := by
  rw [parseString.eq_def]
  dsimp only
  rw [if_neg (by decide), if_neg (by decide), if_pos rfl, if_neg he, hu]

theorem parseString_quoteUnit (u : UInt16) (y : Str) :
    parseString (quoteUnit u ++ y) = (parseString y).map fun p => (u :: p.1, p.2) := by
  have hshort : ∀ {e : UInt16}, e ≠ unit 'u' → escapeOf e = some u → ∀ {s : Str}, s = [unit '\\', e] →
      parseString (s ++ y) = (parseString y).map fun p => (u :: p.1, p.2) := by
    rintro e he hu s rfl
    exact parseString_short he hu y
  unfold quoteUnit
  split
  · rename_i h
    exact hshort (e := unit '"') (by decide) (by rw [h]; decide) (by decide)
  rename_i hq
  split
  · rename_i h
    exact hshort (e := unit '\\') (by decide) (by rw [h]; decide) (by decide)
  rename_i hb
  split
  · rename_i h
    exact hshort (e := unit 'b') (by decide) (by rw [h]; decide) (by decide)
  split
  · rename_i h
    exact hshort (e := unit 't') (by decide) (by rw [h]; decide) (by decide)
  split
  · rename_i h
    exact hshort (e := unit 'n') (by decide) (by rw [h]; decide) (by decide)
  split
  · rename_i h
    exact hshort (e := unit 'f') (by decide) (by rw [h]; decide) (by decide)
  split
  · rename_i h
    exact hshort (e := unit 'r') (by decide) (by rw [h]; decide) (by decide)
  split
  · exact parseString_escape u y
  rename_i hc
  split
  · exact parseString_escape u y
  exact parseString_plain hq hb hc y

theorem parseString_quoteBody (s x : Str) : parseString (quoteBody s ++ unit '"' :: x) = some (s, x) := by
  induction s using quoteBody.induct with
  | case1 => rw [quoteBody, List.nil_append, parseString_close]
  | case2 u =>
    rw [quoteBody, parseString_quoteUnit, parseString_close]
    rfl
  | case3 u v rest h ih =>
    obtain ⟨hhigh, hlow⟩ := Bool.and_eq_true_iff.1 h
    have hu := high_bounds hhigh
    have hv := low_bounds hlow
    have hne : ∀ {w : UInt16}, 0xD800 ≤ w.toNat → w ≠ unit '"' ∧ w ≠ unit '\\' ∧ ¬w < 0x20 := by
      intro w hw
      have hq : (unit '"').toNat = 0x22 := by decide
      have hb : (unit '\\').toNat = 0x5C := by decide
      have hs : (0x20 : UInt16).toNat = 0x20 := by decide
      refine ⟨ne_of_toNat (by omega), ne_of_toNat (by omega), ?_⟩
      rw [UInt16.lt_iff_toNat_lt]
      omega
    obtain ⟨huq, hub, huc⟩ := hne hu.1
    obtain ⟨hvq, hvb, hvc⟩ := hne (w := v) (by omega)
    rw [quoteBody, if_pos h, List.cons_append, List.cons_append, parseString_plain huq hub huc, parseString_plain hvq hvb hvc, ih]
    rfl
  | case4 u v rest h ih =>
    rw [quoteBody, if_neg h, List.append_assoc, parseString_quoteUnit, ih]
    rfl

/-! ## A value read back -/

/-- What may follow a number without going on with it. -/
def Stops (rest : Str) : Prop := ∀ c ∈ rest.head?, isDigit c = false ∧ c ≠ unit '.' ∧ c ≠ unit 'e' ∧ c ≠ unit 'E'

/-- A text that is one number. -/
structure IsNumber (t : Str) : Prop where
  head : ∃ c rest, t = c :: rest ∧ (isDigit c = true ∨ c = unit '-')
  reads : ∀ rest, Stops rest → parseNumber (t ++ rest) = some (t, rest)

mutual

/-- The numbers are numbers, and the objects are in the order the language enumerates. -/
def Written : Json → Prop
  | .num t => IsNumber t
  | .arr items => WrittenItems items
  | .obj fields => ofEntries fields = fields ∧ WrittenFields fields
  | _ => True

def WrittenItems : List Json → Prop
  | [] => True
  | v :: vs => Written v ∧ WrittenItems vs

def WrittenFields : List (Str × Json) → Prop
  | [] => True
  | f :: fs => Written f.2 ∧ WrittenFields fs

end

mutual

/-- The fuel a value takes. -/
def weight : Json → Nat
  | .arr items => 1 + weightItems items
  | .obj fields => 1 + weightFields fields
  | _ => 1

def weightItems : List Json → Nat
  | [] => 0
  | v :: vs => 1 + weight v + weightItems vs

def weightFields : List (Str × Json) → Nat
  | [] => 0
  | f :: fs => 1 + weight f.2 + weightFields fs

end

theorem isBlank_eq_false {c : UInt16} (h : isDigit c = true ∨ c = unit '-') : isBlank c = false := by
  rcases h with h | rfl
  · simp only [isDigit, Bool.and_eq_true, decide_eq_true_eq, UInt16.le_iff_toNat_le] at h
    have hlow : (0x30 : UInt16).toNat = 0x30 := by decide
    simp only [isBlank, Bool.or_eq_false_iff, beq_eq_false_iff_ne]
    refine ⟨⟨⟨ne_of_toNat ?_, ne_of_toNat ?_⟩, ne_of_toNat ?_⟩, ne_of_toNat ?_⟩ <;> simp <;> omega
  · decide

/-- A number is no other token. -/
theorem number_head {c : UInt16} (h : isDigit c = true ∨ c = unit '-') :
    c ≠ unit '"' ∧ c ≠ unit '[' ∧ c ≠ unit '{' ∧ c ≠ unit 't' ∧ c ≠ unit 'f' ∧ c ≠ unit 'n' := by
  rcases h with h | rfl
  · simp only [isDigit, Bool.and_eq_true, decide_eq_true_eq, UInt16.le_iff_toNat_le] at h
    have hlow : (0x30 : UInt16).toNat = 0x30 := by decide
    have hhigh : (0x39 : UInt16).toNat = 0x39 := by decide
    refine ⟨ne_of_toNat ?_, ne_of_toNat ?_, ne_of_toNat ?_, ne_of_toNat ?_, ne_of_toNat ?_, ne_of_toNat ?_⟩ <;>
      simp only [unit] <;> simp <;> omega
  · decide

theorem dropWhile_cons {p : UInt16 → Bool} {c : UInt16} (h : p c = false) (rest : Str) :
    (c :: rest).dropWhile p = c :: rest := by
  rw [List.dropWhile_cons, h]
  rfl

theorem stops_cons {c : UInt16} (h : isDigit c = false ∧ c ≠ unit '.' ∧ c ≠ unit 'e' ∧ c ≠ unit 'E') (rest : Str) :
    Stops (c :: rest) := by
  intro d hd
  cases hd
  exact h

/-- How the text of a value begins. -/
theorem stringify_head {v : Json} (h : Written v) :
    ∃ c rest, v.stringify = c :: rest ∧ isBlank c = false ∧ c ≠ unit ']' := by
  cases v with
  | null => exact ⟨unit 'n', js "ull", by decide, by decide, by decide⟩
  | bool b =>
    cases b
    · exact ⟨unit 'f', js "alse", by decide, by decide, by decide⟩
    · exact ⟨unit 't', js "rue", by decide, by decide, by decide⟩
  | num t =>
    obtain ⟨c, rest, heq, hc⟩ := IsNumber.head h
    refine ⟨c, rest, heq, isBlank_eq_false hc, ?_⟩
    rintro rfl
    exact absurd hc (by decide)
  | str t => exact ⟨unit '"', quoteBody t ++ [unit '"'], rfl, by decide, by decide⟩
  | arr items => exact ⟨unit '[', _, rfl, by decide, by decide⟩
  | obj fields => exact ⟨unit '\x7b', _, rfl, by decide, by decide⟩

theorem literal_self (word : String) (v : Json) (rest : Str) : literal word v (js word ++ rest) = some (v, rest) := by
  have h : startsWith (js word) (js word ++ rest) = true := by
    rw [startsWith, List.isPrefixOf_iff_prefix]
    exact List.prefix_append ..
  rw [literal, if_pos h, List.drop_left]

theorem parseValue_literal {c : UInt16} {word : String} {tail : Str} {v : Json} (n : Nat) (rest : Str)
    (hword : js word = c :: tail) (hc : isBlank c = false)
    (hbranch : ∀ s, parseValue (n + 1) (c :: s) = literal word v (c :: s)) :
    parseValue (n + 1) (js word ++ rest) = some (v, rest) := by
  have h := literal_self word v rest
  rw [hword, List.cons_append] at h ⊢
  rw [hbranch]
  exact h

mutual

/-- A value is read back, whatever follows it. -/
theorem parseValue_stringify : ∀ (v : Json) (n : Nat) (rest : Str), Written v → weight v ≤ n → Stops rest →
    parseValue n (v.stringify ++ rest) = some (v, rest)
  | v, 0, rest, _, hn, _ => by
    cases v <;> simp [weight] at hn
  | .null, n + 1, rest, _, _, _ => by
    refine parseValue_literal n rest (show js "null" = unit 'n' :: js "ull" by decide) (by decide) fun s => ?_
    rw [parseValue, dropWhile_cons (by decide)]
    rfl
  | .bool false, n + 1, rest, _, _, _ => by
    refine parseValue_literal n rest (show js "false" = unit 'f' :: js "alse" by decide) (by decide) fun s => ?_
    rw [parseValue, dropWhile_cons (by decide)]
    rfl
  | .bool true, n + 1, rest, _, _, _ => by
    refine parseValue_literal n rest (show js "true" = unit 't' :: js "rue" by decide) (by decide) fun s => ?_
    rw [parseValue, dropWhile_cons (by decide)]
    rfl
  | .num t, n + 1, rest, hw, _, hs => by
    have ht : IsNumber t := hw
    have hreads := ht.reads rest hs
    obtain ⟨c, tail, rfl, hc⟩ := ht.head
    obtain ⟨h1, h2, h3, h4, h5, h6⟩ := number_head hc
    rw [Json.stringify, List.cons_append] at *
    rw [parseValue, dropWhile_cons (isBlank_eq_false hc)]
    dsimp only
    rw [if_neg h1, if_neg h2, if_neg h3, if_neg h4, if_neg h5, if_neg h6, hreads]
    rfl
  | .str t, n + 1, rest, _, _, _ => by
    rw [Json.stringify, quote]
    simp only [List.cons_append, List.append_assoc, List.nil_append]
    rw [parseValue, dropWhile_cons (by decide)]
    dsimp only
    rw [if_pos rfl, parseString_quoteBody]
    rfl
  | .arr [], n + 1, rest, _, _, _ => by
    rw [Json.stringify, parseValue]
    rfl
  | .arr (v :: vs), n + 1, rest, hw, hn, hs => by
    have hitems : WrittenItems (v :: vs) := hw
    have hread := parseItems_stringify (v :: vs) n rest (List.cons_ne_nil _ _) hitems (by rw [weight] at hn; omega)
    obtain ⟨c, tail, hhead, hblank, hclose⟩ := stringify_head hitems.1
    obtain ⟨more, hmore⟩ : ∃ more, join [unit ','] (Json.stringifyItems (v :: vs)) = c :: more := by
      rw [Json.stringifyItems]
      cases hvs : Json.stringifyItems vs with
      | nil => exact ⟨tail, by rw [join, hhead]⟩
      | cons w ws => exact ⟨_, by rw [join, hhead]; rfl⟩
    rw [Json.stringify]
    simp only [List.cons_append, List.append_assoc, List.nil_append]
    rw [parseValue, dropWhile_cons (by decide)]
    dsimp only
    rw [if_neg (by decide), if_pos rfl]
    rw [hmore, List.cons_append] at hread ⊢
    rw [dropWhile_cons hblank]
    dsimp only
    rw [if_neg hclose, hread]
    rfl
  | .obj [], n + 1, rest, hw, _, _ => by
    rw [Json.stringify, parseValue]
    rfl
  | .obj ((k, v) :: fs), n + 1, rest, hw, hn, hs => by
    obtain ⟨hentries, hfields⟩ : ofEntries ((k, v) :: fs) = (k, v) :: fs ∧ WrittenFields ((k, v) :: fs) := hw
    have hread := parseFields_stringify ((k, v) :: fs) n rest (List.cons_ne_nil _ _) hfields (by rw [weight] at hn; omega)
    obtain ⟨more, hmore⟩ : ∃ more, join [unit ','] (Json.stringifyFields ((k, v) :: fs)) = unit '"' :: more := by
      rw [Json.stringifyFields]
      cases hfs : Json.stringifyFields fs with
      | nil => exact ⟨_, by rw [join, quote]; rfl⟩
      | cons w ws => exact ⟨_, by rw [join, quote]; rfl⟩
    rw [Json.stringify]
    simp only [List.cons_append, List.append_assoc, List.nil_append]
    rw [parseValue, dropWhile_cons (by decide)]
    dsimp only
    rw [if_neg (by decide), if_neg (by decide), if_pos rfl]
    rw [hmore, List.cons_append] at hread ⊢
    rw [dropWhile_cons (by decide)]
    dsimp only
    rw [if_neg (by decide), hread]
    dsimp only [Option.map_some]
    rw [hentries]

theorem parseItems_stringify : ∀ (vs : List Json) (n : Nat) (rest : Str), vs ≠ [] → WrittenItems vs → weightItems vs ≤ n →
    parseItems n (join [unit ','] (Json.stringifyItems vs) ++ unit ']' :: rest) = some (vs, rest)
  | [], _, _, hne, _, _ => absurd rfl hne
  | v :: vs, 0, _, _, _, hn => by simp [weightItems] at hn
  | [v], n + 1, rest, _, hw, hn => by
    have hv := parseValue_stringify v n (unit ']' :: rest) hw.1 (by rw [weightItems] at hn; omega) (stops_cons (by decide) _)
    rw [Json.stringifyItems, Json.stringifyItems, join, parseItems, hv]
    dsimp only
    rw [dropWhile_cons (by decide)]
    rfl
  | v :: w :: vs, n + 1, rest, _, hw, hn => by
    rw [weightItems] at hn
    have hv := parseValue_stringify v n (unit ',' :: (join [unit ','] (Json.stringifyItems (w :: vs)) ++ unit ']' :: rest)) hw.1
      (by omega) (stops_cons (by decide) _)
    have hrest := parseItems_stringify (w :: vs) n rest (List.cons_ne_nil _ _) hw.2 (by omega)
    rw [Json.stringifyItems, join_cons _ _ (by rw [Json.stringifyItems]; exact List.cons_ne_nil _ _), List.append_assoc,
      List.append_assoc, List.singleton_append, parseItems, hv]
    dsimp only
    rw [dropWhile_cons (by decide)]
    dsimp only
    rw [if_neg (by decide), if_pos rfl, hrest]
    rfl

theorem parseFields_stringify : ∀ (fs : List (Str × Json)) (n : Nat) (rest : Str), fs ≠ [] → WrittenFields fs →
    weightFields fs ≤ n → parseFields n (join [unit ','] (Json.stringifyFields fs) ++ unit '\x7d' :: rest) = some (fs, rest)
  | [], _, _, hne, _, _ => absurd rfl hne
  | f :: fs, 0, _, _, _, hn => by simp [weightFields] at hn
  | [(k, v)], n + 1, rest, _, hw, hn => by
    have hv := parseValue_stringify v n (unit '\x7d' :: rest) hw.1 (by rw [weightFields] at hn; dsimp only at hn; omega) (stops_cons (by decide) _)
    rw [Json.stringifyFields, Json.stringifyFields, join, parseFields, quote]
    simp only [List.cons_append, List.append_assoc, List.nil_append]
    rw [dropWhile_cons (by decide)]
    dsimp only
    rw [if_pos rfl, parseString_quoteBody]
    dsimp only
    rw [dropWhile_cons (by decide)]
    dsimp only
    rw [if_pos rfl, hv]
    dsimp only
    rw [dropWhile_cons (by decide)]
    rfl
  | (k, v) :: g :: fs, n + 1, rest, _, hw, hn => by
    rw [weightFields] at hn
    dsimp only at hn
    have hv := parseValue_stringify v n (unit ',' :: (join [unit ','] (Json.stringifyFields (g :: fs)) ++ unit '\x7d' :: rest)) hw.1
      (by omega) (stops_cons (by decide) _)
    have hrest := parseFields_stringify (g :: fs) n rest (List.cons_ne_nil _ _) hw.2 (by omega)
    have hne : Json.stringifyFields (g :: fs) ≠ [] := by
      rw [show g = (g.1, g.2) from rfl, Json.stringifyFields]
      exact List.cons_ne_nil _ _
    rw [Json.stringifyFields, join_cons _ _ hne, parseFields, quote]
    simp only [List.cons_append, List.append_assoc, List.nil_append]
    rw [dropWhile_cons (by decide)]
    dsimp only
    rw [if_pos rfl, parseString_quoteBody]
    dsimp only
    rw [dropWhile_cons (by decide)]
    dsimp only
    rw [if_pos rfl, hv]
    dsimp only
    rw [dropWhile_cons (by decide)]
    dsimp only
    rw [if_neg (by decide), if_pos rfl, hrest]
    rfl

end

mutual

theorem weight_le : ∀ v : Json, Written v → weight v ≤ v.stringify.length
  | .null, _ => by decide
  | .bool false, _ => by decide
  | .bool true, _ => by decide
  | .num t, h => by
    obtain ⟨c, rest, heq, _⟩ := IsNumber.head h
    have hlen : (Json.num t).stringify.length = rest.length + 1 := by rw [Json.stringify, heq, List.length_cons]
    rw [hlen]
    exact Nat.succ_le_succ (Nat.zero_le _)
  | .str t, _ => by
    rw [Json.stringify, quote, List.length_append, List.length_cons]
    exact Nat.succ_le_of_lt (by omega)
  | .arr items, h => by
    have hitems := weightItems_le items h
    rw [weight, Json.stringify, List.length_append, List.length_cons, List.length_singleton]
    omega
  | .obj fields, h => by
    have hfields := weightFields_le fields h.2
    rw [weight, Json.stringify, List.length_append, List.length_cons, List.length_singleton]
    omega

theorem weightItems_le : ∀ vs : List Json, WrittenItems vs →
    weightItems vs ≤ (join [unit ','] (Json.stringifyItems vs)).length + 1
  | [], _ => by simp [weightItems]
  | [v], h => by
    have hv := weight_le v h.1
    rw [weightItems, weightItems, Json.stringifyItems, Json.stringifyItems, join]
    omega
  | v :: w :: vs, h => by
    have hv := weight_le v h.1
    have hrest := weightItems_le (w :: vs) h.2
    rw [weightItems, Json.stringifyItems, join_cons _ _ (by rw [Json.stringifyItems]; exact List.cons_ne_nil _ _),
      List.length_append, List.length_append, List.length_singleton]
    omega

theorem weightFields_le : ∀ fs : List (Str × Json), WrittenFields fs →
    weightFields fs ≤ (join [unit ','] (Json.stringifyFields fs)).length + 1
  | [], _ => by simp [weightFields]
  | [(k, v)], h => by
    have hv := weight_le v h.1
    rw [weightFields, weightFields, Json.stringifyFields, Json.stringifyFields, join, List.length_append]
    dsimp only
    omega
  | (k, v) :: (l, w) :: fs, h => by
    have hv := weight_le v h.1
    have hrest := weightFields_le ((l, w) :: fs) h.2
    rw [weightFields, Json.stringifyFields, join_cons _ _ (by rw [Json.stringifyFields]; exact List.cons_ne_nil _ _),
      List.length_append, List.length_append, List.length_append, List.length_singleton]
    dsimp only
    omega

end

/-- `JSON.parse` undoes `JSON.stringify`. -/
theorem parse_stringify {v : Json} (h : Written v) : parse v.stringify = some v := by
  have hread := parseValue_stringify v (v.stringify.length + 1) [] h ((weight_le v h).trans (Nat.le_succ _)) fun c hc => by
    cases hc
  rw [List.append_nil] at hread
  rw [parse, hread]
  rfl

/-! ## Whole numbers -/

/-- The text of a whole number. -/
def decimal (n : Int) : Str := js (toString n)

theorem toDigits_head (n : Nat) : ∃ c rest, Nat.toDigits 10 n = c :: rest ∧ (0 < n → c ≠ '0') ∧ (n = 0 → rest = []) := by
  induction n using Nat.strong_induction_on with
  | _ n ih =>
    rw [Nat.toDigits_eq_if (by decide)]
    split
    · rename_i hlt
      refine ⟨_, [], rfl, fun hpos => ?_, fun _ => rfl⟩
      interval_cases n <;> decide
    · rename_i hge
      obtain ⟨c, rest, heq, hc, _⟩ := ih (n / 10) (by omega)
      rw [heq]
      exact ⟨c, rest ++ [Nat.digitChar (n % 10)], rfl, fun _ => hc (by omega), fun h => by omega⟩

theorem unitsOf_digit {c : Char} (h : c.isDigit = true) : unitsOf c = [unit c] ∧ isDigit (unit c) = true := by
  obtain ⟨h1, h2⟩ : 48 ≤ c.toNat ∧ c.toNat ≤ 57 := by
    simp only [Char.isDigit, Bool.and_eq_true, decide_eq_true_eq] at h
    exact h
  refine ⟨if_pos (by omega), ?_⟩
  rw [unit]
  interval_cases c.toNat <;> decide

theorem units_nat (n : Nat) : js (toString n) = (Nat.toDigits 10 n).map unit := by
  rw [js, Nat.toString_eq_repr, Nat.toList_repr, List.map_eq_flatMap]
  exact List.flatMap_congr fun c hc =>
    (unitsOf_digit (Nat.isDigit_of_mem_toDigits (b := 10) (by decide) (by decide) hc)).1

theorem numberOf_nat (n : Nat) : numberOf (js (toString n)) = n := by
  have hfold : ∀ (cs : List Char) (init : Nat), (∀ c ∈ cs, c.isDigit = true) →
      (cs.map unit).foldl (fun n u => 10 * n + (u.toNat - 48)) init = Nat.ofDigitChars 10 cs init := by
    intro cs
    induction cs with
    | nil => exact fun _ _ => rfl
    | cons c cs ih =>
      intro init hcs
      have hc : (unit c).toNat = c.toNat := by
        have hd := hcs c List.mem_cons_self
        simp only [Char.isDigit, Bool.and_eq_true, decide_eq_true_eq] at hd
        have hlt : c.toNat ≤ 57 := hd.2
        rw [unit, Nat.toUInt16, UInt16.toNat_ofNat']
        omega
      rw [List.map_cons, List.foldl_cons, hc, ih _ fun d hd => hcs d (List.mem_cons_of_mem _ hd), Nat.ofDigitChars_cons]
      rfl
  rw [numberOf, units_nat, hfold _ 0 fun c hc => Nat.isDigit_of_mem_toDigits (b := 10) (by decide) (by decide) hc]
  exact Nat.ofDigitChars_ten_toDigits

/-- The text of a natural number: digits, and no leading zero. -/
theorem decimal_nat (n : Nat) : ∃ c rest, js (toString n) = c :: rest ∧ (∀ u ∈ c :: rest, isDigit u = true) ∧
    (c = unit '0' → rest = []) := by
  have hunits := units_nat n
  obtain ⟨c, rest, heq, hpos, hzero⟩ := toDigits_head n
  refine ⟨unit c, rest.map unit, by rw [hunits, heq]; rfl, ?_, fun hc => ?_⟩
  · intro u hu
    have hmem : u ∈ (Nat.toDigits 10 n).map unit := by rw [heq]; exact hu
    obtain ⟨d, hd, rfl⟩ := List.mem_map.1 hmem
    exact (unitsOf_digit (Nat.isDigit_of_mem_toDigits (b := 10) (by decide) (by decide) hd)).2
  · rcases Nat.eq_zero_or_pos n with h0 | h0
    · rw [hzero h0]
      rfl
    · refine absurd ?_ (hpos h0)
      have hd : c.isDigit = true :=
        Nat.isDigit_of_mem_toDigits (b := 10) (n := n) (by decide) (by decide) (by rw [heq]; exact List.mem_cons_self)
      obtain ⟨h1, h2⟩ : 48 ≤ c.toNat ∧ c.toNat ≤ 57 := by
        simp only [Char.isDigit, Bool.and_eq_true, decide_eq_true_eq] at hd
        exact hd
      refine char_eq (toUInt16_inj (by omega) (by decide) hc)

theorem takeWhile_digits {ds rest : Str} (hd : ∀ u ∈ ds, isDigit u = true) (hs : Stops rest) :
    (ds ++ rest).takeWhile isDigit = ds ∧ (ds ++ rest).dropWhile isDigit = rest := by
  rw [List.takeWhile_append_of_pos hd, List.dropWhile_append_of_pos hd]
  cases rest with
  | nil => exact ⟨List.append_nil _, rfl⟩
  | cons c rest =>
    have hc : isDigit c = false := (hs c rfl).1
    rw [List.takeWhile_cons, List.dropWhile_cons, hc]
    exact ⟨List.append_nil _, rfl⟩

theorem parseFraction_stops {rest : Str} (hs : Stops rest) : parseFraction rest = some ([], rest) := by
  cases rest with
  | nil => rfl
  | cons c rest => exact if_neg (hs c rfl).2.1

theorem parseExponent_stops {rest : Str} (hs : Stops rest) : parseExponent rest = some ([], rest) := by
  cases rest with
  | nil => rfl
  | cons c rest =>
    obtain ⟨-, -, he, hE⟩ := hs c rfl
    exact if_neg (not_or.2 ⟨he, hE⟩)

theorem parseInteger_nat (n : Nat) {rest : Str} (hs : Stops rest) :
    parseInteger (js (toString n) ++ rest) = some (js (toString n), rest) := by
  obtain ⟨c, ds, heq, hd, hzero⟩ := decimal_nat n
  rw [heq, List.cons_append, parseInteger]
  split
  · rename_i hc
    rw [hzero hc]
    rfl
  · obtain ⟨htake, hdrop⟩ := takeWhile_digits hd hs
    rw [List.cons_append] at htake hdrop
    rw [parseDigits, htake, hdrop, if_neg (List.cons_ne_nil _ _)]

theorem decimal_isNumber (n : Int) : IsNumber (decimal n) := by
  have hnat (m : Nat) : IsNumber (js (toString m)) := by
    obtain ⟨c, ds, heq, hd, -⟩ := decimal_nat m
    have hc := hd c List.mem_cons_self
    refine ⟨⟨c, ds, heq, .inl hc⟩, fun rest hs => ?_⟩
    have hint := parseInteger_nat m hs
    have hminus : c ≠ unit '-' := by
      rintro rfl
      exact absurd hc (by decide)
    rw [heq, List.cons_append] at hint ⊢
    rw [parseNumber, if_neg hminus]
    dsimp only
    rw [hint]
    dsimp only
    rw [parseFraction_stops hs]
    dsimp only
    rw [parseExponent_stops hs]
    simp
  cases n with
  | ofNat m => exact hnat m
  | negSucc m =>
    have htext : decimal (.negSucc m) = unit '-' :: js (toString (m + 1)) := by
      show js ("-" ++ toString (m + 1)) = _
      rw [js, String.toList_append]
      rfl
    rw [htext]
    refine ⟨⟨_, _, rfl, .inr rfl⟩, fun rest hs => ?_⟩
    have hint := parseInteger_nat (m + 1) hs
    rw [List.cons_append, parseNumber, if_pos rfl]
    dsimp only
    rw [hint]
    dsimp only
    rw [parseFraction_stops hs]
    dsimp only
    rw [parseExponent_stops hs]
    simp

end Js

end Antiproton
