import Mathlib.Tactic.IntervalCases
import Antiproton.Lib.PrefixCode
import Antiproton.Core.Js

/-!
# Antiproton.Core.JsonText

What the texts of the language say can be read back: a literal's code units, a string as `JSON.stringify` quotes it, and
the UTF-8 bytes of a text without lone surrogates.

* `js_injective`: different literals have different code units.
* `quote_code`: a quoted string is known from the text it begins.
* `utf8_injective`: different well-formed texts have different bytes.
-/

namespace Antiproton

namespace Js

/-! ## Characters -/

theorem toUInt16_inj {n m : Nat} (hn : n < 65536) (hm : m < 65536) (h : n.toUInt16 = m.toUInt16) : n = m := by
  have hnat := congrArg UInt16.toNat h
  rwa [Nat.toUInt16_eq, Nat.toUInt16_eq, UInt16.toNat_ofNat_of_lt' hn, UInt16.toNat_ofNat_of_lt' hm] at hnat

theorem char_bound (c : Char) : c.toNat < 0x110000 ∧ (c.toNat < 0xD800 ∨ 0xDFFF < c.toNat) := by
  rcases c.valid with h | ⟨h, h'⟩
  · have hlt : c.toNat < 0xD800 := h
    omega
  · have hgt : 0xDFFF < c.toNat := h
    have hlt : c.toNat < 0x110000 := h'
    omega

theorem char_eq {c d : Char} (h : c.toNat = d.toNat) : c = d := Char.toNat_inj.1 h

theorem unitsOf_code : Code.Prefix unitsOf := by
  intro c d x y heq
  obtain ⟨hc, hcs⟩ := char_bound c
  obtain ⟨hd, hds⟩ := char_bound d
  unfold unitsOf at heq
  split at heq <;> split at heq <;> simp only [List.cons_append, List.nil_append, List.cons.injEq] at heq
  · obtain ⟨hunit, rfl⟩ := heq
    exact ⟨char_eq (toUInt16_inj (by omega) (by omega) hunit), rfl⟩
  · have hnat := toUInt16_inj (by omega) (by omega) heq.1
    omega
  · have hnat := toUInt16_inj (by omega) (by omega) heq.1
    omega
  · obtain ⟨hhigh, hlow, rfl⟩ := heq
    have hh := toUInt16_inj (by omega) (by omega) hhigh
    have hl := toUInt16_inj (by omega) (by omega) hlow
    exact ⟨char_eq (by omega), rfl⟩

theorem unitsOf_ne_nil (c : Char) : unitsOf c ≠ [] := by
  unfold unitsOf
  split <;> exact List.cons_ne_nil _ _

theorem js_injective : Function.Injective js := by
  intro s t h
  exact String.toList_inj.1 (Code.flatMap_injective unitsOf_code unitsOf_ne_nil h)

/-! ## A quoted string read back -/

/-- The value of a hexadecimal digit. -/
def unhex (u : UInt16) : Nat := if u.toNat < 0x40 then u.toNat - 0x30 else u.toNat - 0x57

/-- What stands after a backslash, but for `u`. -/
def unescape (u : UInt16) : UInt16 :=
  if u = unit 'b' then 8
  else if u = unit 't' then 9
  else if u = unit 'n' then 10
  else if u = unit 'f' then 12
  else if u = unit 'r' then 13
  else u

/-- The inside of a quoted string, up to its closing quote, and what follows that. -/
def readBody : Str → Option (Str × Str)
  | [] => none
  | c :: rest =>
    if c = unit '"' then some ([], rest)
    else if c = unit '\\' then
      match rest with
      | e :: rest =>
        if e = unit 'u' then
          match rest with
          | a :: b :: c :: d :: rest =>
            (readBody rest).map fun p =>
              ((((unhex a * 16 + unhex b) * 16 + unhex c) * 16 + unhex d).toUInt16 :: p.1, p.2)
          | _ => none
        else (readBody rest).map fun p => (unescape e :: p.1, p.2)
      | [] => none
    else (readBody rest).map fun p => (c :: p.1, p.2)

def readQuoted : Str → Option (Str × Str)
  | [] => none
  | c :: rest => if c = unit '"' then readBody rest else none

theorem unhex_hexDigit {n : Nat} (h : n < 16) : unhex (hexDigit n) = n := by
  interval_cases n <;> decide

theorem readBody_plain {u : UInt16} (hq : u ≠ unit '"') (hb : u ≠ unit '\\') (y : Str) :
    readBody (u :: y) = (readBody y).map fun p => (u :: p.1, p.2) := by
  rw [readBody.eq_def]
  dsimp only
  rw [if_neg hq, if_neg hb]

theorem readBody_close (x : Str) : readBody (unit '"' :: x) = some ([], x) := by
  rw [readBody.eq_def]
  dsimp only
  rw [if_pos rfl]

theorem readBody_escape (u : UInt16) (y : Str) :
    readBody (escapeUnit u ++ y) = (readBody y).map fun p => (u :: p.1, p.2) := by
  have hlt := u.toNat_lt
  have hvalue : (((u.toNat / 4096 % 16 * 16 + u.toNat / 256 % 16) * 16 + u.toNat / 16 % 16) * 16 + u.toNat % 16) = u.toNat := by
    omega
  have hback : u.toNat.toUInt16 = u := by simp
  have hjs : js "\\u" = [unit '\\', unit 'u'] := by decide
  rw [escapeUnit, hjs]
  simp only [List.cons_append, List.nil_append]
  rw [readBody.eq_def]
  dsimp only
  rw [if_neg (by decide), if_pos rfl, if_pos rfl, unhex_hexDigit (Nat.mod_lt _ (by decide)), unhex_hexDigit (Nat.mod_lt _ (by decide)),
    unhex_hexDigit (Nat.mod_lt _ (by decide)), unhex_hexDigit (Nat.mod_lt _ (by decide)), hvalue, hback]

theorem readBody_short {e : UInt16} (he : e ≠ unit 'u') (y : Str) :
    readBody (unit '\\' :: e :: y) = (readBody y).map fun p => (unescape e :: p.1, p.2) := by
  rw [readBody.eq_def]
  dsimp only
  rw [if_neg (by decide), if_pos rfl, if_neg he]

theorem readBody_quoteUnit (u : UInt16) (y : Str) :
    readBody (quoteUnit u ++ y) = (readBody y).map fun p => (u :: p.1, p.2) := by
  have hshort : ∀ {e : UInt16}, e ≠ unit 'u' → unescape e = u → ∀ {s : Str}, s = [unit '\\', e] →
      readBody (s ++ y) = (readBody y).map fun p => (u :: p.1, p.2) := by
    rintro e he hu s rfl
    rw [← hu]
    exact readBody_short he y
  unfold quoteUnit
  split
  · rename_i h
    exact hshort (e := unit '"') (by decide) (by rw [h]; decide) (by decide)
  rename_i hq
  split
  · rename_i h
    exact hshort (e := unit '\\') (by decide) (by rw [h]; decide) (by decide)
  rename_i hb
  split
  · rename_i h
    exact hshort (e := unit 'b') (by decide) (by rw [h]; decide) (by decide)
  split
  · rename_i h
    exact hshort (e := unit 't') (by decide) (by rw [h]; decide) (by decide)
  split
  · rename_i h
    exact hshort (e := unit 'n') (by decide) (by rw [h]; decide) (by decide)
  split
  · rename_i h
    exact hshort (e := unit 'f') (by decide) (by rw [h]; decide) (by decide)
  split
  · rename_i h
    exact hshort (e := unit 'r') (by decide) (by rw [h]; decide) (by decide)
  split
  · exact readBody_escape u y
  split
  · exact readBody_escape u y
  exact readBody_plain hq hb y

theorem high_bounds {u : UInt16} (h : isHigh u = true) : 0xD800 ≤ u.toNat ∧ u.toNat ≤ 0xDBFF := by
  simp only [isHigh, Bool.and_eq_true, decide_eq_true_eq, UInt16.le_iff_toNat_le] at h
  exact h

theorem low_bounds {u : UInt16} (h : isLow u = true) : 0xDC00 ≤ u.toNat ∧ u.toNat ≤ 0xDFFF := by
  simp only [isLow, Bool.and_eq_true, decide_eq_true_eq, UInt16.le_iff_toNat_le] at h
  exact h

theorem ne_of_toNat {u v : UInt16} (h : u.toNat ≠ v.toNat) : u ≠ v := fun heq => h (congrArg UInt16.toNat heq)

/-- A quoted string is read back, whatever follows it. -/
theorem readBody_quoteBody (s x : Str) : readBody (quoteBody s ++ unit '"' :: x) = some (s, x) := by
  induction s using quoteBody.induct with
  | case1 =>
    rw [quoteBody, List.nil_append, readBody_close]
  | case2 u =>
    rw [quoteBody, readBody_quoteUnit, readBody_close]
    rfl
  | case3 u v rest h ih =>
    obtain ⟨hhigh, hlow⟩ := Bool.and_eq_true_iff.1 h
    have hu := high_bounds hhigh
    have hv := low_bounds hlow
    have hne : ∀ {w : UInt16}, 0xD800 ≤ w.toNat → w ≠ unit '"' ∧ w ≠ unit '\\' := by
      intro w hw
      have hq : (unit '"').toNat = 0x22 := by decide
      have hb : (unit '\\').toNat = 0x5C := by decide
      exact ⟨ne_of_toNat (by omega), ne_of_toNat (by omega)⟩
    obtain ⟨huq, hub⟩ := hne hu.1
    obtain ⟨hvq, hvb⟩ := hne (w := v) (by omega)
    rw [quoteBody, if_pos h, List.cons_append, List.cons_append, readBody_plain huq hub, readBody_plain hvq hvb, ih]
    rfl
  | case4 u v rest h ih =>
    rw [quoteBody, if_neg h, List.append_assoc, readBody_quoteUnit, ih]
    rfl

theorem readQuoted_quote (s x : Str) : readQuoted (quote s ++ x) = some (s, x) := by
  rw [quote, List.cons_append, List.cons_append, readQuoted, if_pos rfl, List.append_assoc, List.singleton_append]
  exact readBody_quoteBody s x

theorem quote_code : Code.Prefix quote := Code.of_reader readQuoted_quote

/-! ## Bytes -/

/-- A text without lone surrogates. -/
def WellFormed (t : Str) : Prop := ∃ cs : List Char, t = cs.flatMap unitsOf

theorem WellFormed.append {s t : Str} (hs : WellFormed s) (ht : WellFormed t) : WellFormed (s ++ t) := by
  obtain ⟨cs, rfl⟩ := hs
  obtain ⟨ds, rfl⟩ := ht
  exact ⟨cs ++ ds, List.flatMap_append.symm⟩

theorem wellFormed_js (s : String) : WellFormed (js s) := ⟨s.toList, rfl⟩

theorem wellFormed_nil : WellFormed [] := ⟨[], rfl⟩

theorem ofNat_toNat {n : Nat} (h : n < 0xD800 ∨ 0xDFFF < n ∧ n < 0x110000) : (Char.ofNat n).toNat = n := by
  have hvalid : n.isValidChar := h
  unfold Char.ofNat
  rw [dif_pos hvalid]
  rfl

/-- A unit that is not half of a pair. -/
theorem wellFormed_unit {u : UInt16} (h : (isHigh u || isLow u) = false) : WellFormed [u] := by
  have hlt := u.toNat_lt
  have hnot : ¬(0xD800 ≤ u.toNat ∧ u.toNat ≤ 0xDFFF) := by
    simp only [isHigh, isLow, Bool.or_eq_false_iff, Bool.and_eq_false_iff, decide_eq_false_iff_not,
      UInt16.le_iff_toNat_le] at h
    simp only [UInt16.reduceToNat] at h
    omega
  have hc : (Char.ofNat u.toNat).toNat = u.toNat := ofNat_toNat (by omega)
  refine ⟨[Char.ofNat u.toNat], ?_⟩
  rw [List.flatMap_cons, List.flatMap_nil, List.append_nil, unitsOf, hc, if_pos (by omega)]
  simp

theorem wellFormed_pair {u v : UInt16} (hu : isHigh u = true) (hv : isLow v = true) : WellFormed [u, v] := by
  obtain ⟨hu1, hu2⟩ := high_bounds hu
  obtain ⟨hv1, hv2⟩ := low_bounds hv
  have hc : (Char.ofNat (0x10000 + (u.toNat - 0xD800) * 0x400 + (v.toNat - 0xDC00))).toNat =
      0x10000 + (u.toNat - 0xD800) * 0x400 + (v.toNat - 0xDC00) := ofNat_toNat (by omega)
  refine ⟨[Char.ofNat (0x10000 + (u.toNat - 0xD800) * 0x400 + (v.toNat - 0xDC00))], ?_⟩
  have hhigh : 0xD800 + (0x10000 + (u.toNat - 0xD800) * 0x400 + (v.toNat - 0xDC00) - 0x10000) / 0x400 = u.toNat := by omega
  have hlow : 0xDC00 + (0x10000 + (u.toNat - 0xD800) * 0x400 + (v.toNat - 0xDC00) - 0x10000) % 0x400 = v.toNat := by omega
  rw [List.flatMap_cons, List.flatMap_nil, List.append_nil, unitsOf, hc, if_neg (by omega), hhigh, hlow]
  simp

theorem wellFormed_escapeUnit (u : UInt16) : WellFormed (escapeUnit u) := by
  have hdigit : ∀ n, WellFormed [hexDigit (n % 16)] := by
    intro n
    have hlt : n % 16 < 16 := Nat.mod_lt _ (by decide)
    generalize n % 16 = d at hlt
    refine wellFormed_unit ?_
    interval_cases d <;> decide
  exact (wellFormed_js _).append ((hdigit _).append ((hdigit _).append ((hdigit _).append (hdigit _))))

theorem wellFormed_quoteUnit (u : UInt16) : WellFormed (quoteUnit u) := by
  unfold quoteUnit
  split
  · exact wellFormed_js _
  split
  · exact wellFormed_js _
  split
  · exact wellFormed_js _
  split
  · exact wellFormed_js _
  split
  · exact wellFormed_js _
  split
  · exact wellFormed_js _
  split
  · exact wellFormed_js _
  split
  · exact wellFormed_escapeUnit u
  split
  · exact wellFormed_escapeUnit u
  · rename_i h
    exact wellFormed_unit (Bool.eq_false_iff.2 h)

/-- What `JSON.stringify` makes of a string has no lone surrogate. -/
theorem wellFormed_quote (s : Str) : WellFormed (quote s) := by
  have hbody : WellFormed (quoteBody s) := by
    induction s using quoteBody.induct with
    | case1 => exact wellFormed_nil
    | case2 u =>
      rw [quoteBody]
      exact wellFormed_quoteUnit u
    | case3 u v rest h ih =>
      obtain ⟨hhigh, hlow⟩ := Bool.and_eq_true_iff.1 h
      rw [quoteBody, if_pos h]
      exact (wellFormed_pair hhigh hlow).append ih
    | case4 u v rest h ih =>
      rw [quoteBody, if_neg h]
      exact (wellFormed_quoteUnit u).append ih
  exact (wellFormed_js "\"").append (hbody.append (wellFormed_js "\""))

/-- The first character of a sequence of UTF-8 bytes, and the bytes after it. -/
def readPoint : List UInt8 → Option (Char × List UInt8)
  | [] => none
  | a :: rest =>
    if a.toNat < 0x80 then some (Char.ofNat a.toNat, rest)
    else
      match rest with
      | [] => none
      | b :: rest =>
        if a.toNat < 0xE0 then some (Char.ofNat ((a.toNat - 0xC0) * 64 + (b.toNat - 0x80)), rest)
        else
          match rest with
          | [] => none
          | c :: rest =>
            if a.toNat < 0xF0 then
              some (Char.ofNat (((a.toNat - 0xE0) * 64 + (b.toNat - 0x80)) * 64 + (c.toNat - 0x80)), rest)
            else
              match rest with
              | [] => none
              | d :: rest =>
                some (Char.ofNat ((((a.toNat - 0xF0) * 64 + (b.toNat - 0x80)) * 64 + (c.toNat - 0x80)) * 64 +
                  (d.toNat - 0x80)), rest)

theorem toNat_toUInt8 {n : Nat} (h : n < 256) : n.toUInt8.toNat = n := by
  rw [Nat.toUInt8_eq, UInt8.toNat_ofNat_of_lt' h]

theorem readPoint_utf8Point (c : Char) (x : List UInt8) : readPoint (utf8Point c.toNat ++ x) = some (c, x) := by
  obtain ⟨hlt, -⟩ := char_bound c
  have hc : Char.ofNat c.toNat = c := Char.ofNat_toNat c
  generalize c.toNat = n at hlt hc
  unfold utf8Point
  split
  · rw [List.singleton_append, readPoint.eq_def]
    dsimp only
    rw [toNat_toUInt8 (by omega), if_pos (by omega), hc]
  split
  · simp only [List.cons_append, List.nil_append, readPoint]
    rw [toNat_toUInt8 (by omega), toNat_toUInt8 (by omega), if_neg (by omega), if_pos (by omega),
      show (0xC0 + n / 64 - 0xC0) * 64 + (0x80 + n % 64 - 0x80) = n from by omega, hc]
  split
  · simp only [List.cons_append, List.nil_append, readPoint]
    rw [toNat_toUInt8 (by omega), toNat_toUInt8 (by omega), toNat_toUInt8 (by omega), if_neg (by omega), if_neg (by omega),
      if_pos (by omega), show ((0xE0 + n / 4096 - 0xE0) * 64 + (0x80 + n / 64 % 64 - 0x80)) * 64 + (0x80 + n % 64 - 0x80) = n
        from by omega, hc]
  · simp only [List.cons_append, List.nil_append, readPoint]
    rw [toNat_toUInt8 (by omega), toNat_toUInt8 (by omega), toNat_toUInt8 (by omega), toNat_toUInt8 (by omega),
      if_neg (by omega), if_neg (by omega), if_neg (by omega),
      show (((0xF0 + n / 262144 - 0xF0) * 64 + (0x80 + n / 4096 % 64 - 0x80)) * 64 + (0x80 + n / 64 % 64 - 0x80)) * 64 +
        (0x80 + n % 64 - 0x80) = n from by omega, hc]

theorem utf8_units (cs : List Char) : utf8 (cs.flatMap unitsOf) = cs.flatMap fun c => utf8Point c.toNat := by
  induction cs with
  | nil => rfl
  | cons c cs ih =>
    obtain ⟨hlt, hsur⟩ := char_bound c
    rw [List.flatMap_cons, List.flatMap_cons, ← ih]
    generalize cs.flatMap unitsOf = rest
    unfold unitsOf
    split
    · rename_i hbmp
      have hunit : c.toNat.toUInt16.toNat = c.toNat := by rw [Nat.toUInt16_eq, UInt16.toNat_ofNat_of_lt' hbmp]
      have hlone : isHigh c.toNat.toUInt16 = false ∧ isLow c.toNat.toUInt16 = false := by
        simp only [isHigh, isLow, Bool.and_eq_false_iff, decide_eq_false_iff_not, UInt16.le_iff_toNat_le, hunit]
        simp only [UInt16.reduceToNat]
        omega
      have hone : utf8Unit c.toNat.toUInt16 = utf8Point c.toNat := by
        rw [utf8Unit, hlone.1, hlone.2, Bool.or_false, if_neg Bool.false_ne_true, hunit]
      cases rest with
      | nil => rw [List.append_nil, utf8, utf8, List.append_nil, hone]
      | cons v rest =>
        rw [List.singleton_append, utf8, hlone.1, Bool.false_and, if_neg Bool.false_ne_true, hone]
    · rename_i hastral
      have hhigh : (0xD800 + (c.toNat - 0x10000) / 0x400).toUInt16.toNat = 0xD800 + (c.toNat - 0x10000) / 0x400 := by
        rw [Nat.toUInt16_eq, UInt16.toNat_ofNat_of_lt' (by unfold UInt16.size; omega)]
      have hlow : (0xDC00 + (c.toNat - 0x10000) % 0x400).toUInt16.toNat = 0xDC00 + (c.toNat - 0x10000) % 0x400 := by
        rw [Nat.toUInt16_eq, UInt16.toNat_ofNat_of_lt' (by unfold UInt16.size; omega)]
      have hpair : (isHigh (0xD800 + (c.toNat - 0x10000) / 0x400).toUInt16 &&
          isLow (0xDC00 + (c.toNat - 0x10000) % 0x400).toUInt16) = true := by
        simp only [isHigh, isLow, Bool.and_eq_true, decide_eq_true_eq, UInt16.le_iff_toNat_le, hhigh, hlow]
        simp only [UInt16.reduceToNat]
        omega
      have hpoint : 0x10000 + (0xD800 + (c.toNat - 0x10000) / 0x400 - 0xD800) * 0x400 +
          (0xDC00 + (c.toNat - 0x10000) % 0x400 - 0xDC00) = c.toNat := by omega
      rw [List.cons_append, List.cons_append, List.nil_append, utf8, if_pos hpair, hhigh, hlow, hpoint]

theorem utf8Point_ne_nil (n : Nat) : utf8Point n ≠ [] := by
  unfold utf8Point
  split
  · exact List.cons_ne_nil _ _
  split
  · exact List.cons_ne_nil _ _
  split <;> exact List.cons_ne_nil _ _

/-- Well-formed texts of the same bytes are the same. -/
theorem utf8_injective {s t : Str} (hs : WellFormed s) (ht : WellFormed t) (h : utf8 s = utf8 t) : s = t := by
  obtain ⟨cs, rfl⟩ := hs
  obtain ⟨ds, rfl⟩ := ht
  rw [utf8_units, utf8_units] at h
  rw [Code.flatMap_injective (Code.of_reader readPoint_utf8Point) (fun c => utf8Point_ne_nil c.toNat) h]

/-! ## Fields by their names in a program -/

theorem field_js (key name : String) (v : Json) (fields : List (Str × Json)) :
    (Json.obj ((js key, v) :: fields)).field? (js name) = if key = name then some v else (Json.obj fields).field? (js name) := by
  split
  · rename_i h
    rw [h, Json.field?, List.find?_cons, beq_self_eq_true]
    rfl
  · rename_i h
    rw [Json.field?, List.find?_cons_of_neg (by rw [beq_iff_eq]; exact fun hk => h (js_injective hk))]
    rfl

theorem field_nil (name : String) : (Json.obj []).field? (js name) = none := rfl

theorem field_append (xs ys : List (Str × Json)) (k : Str) :
    (Json.obj (xs ++ ys)).field? k = ((Json.obj xs).field? k).or ((Json.obj ys).field? k) := by
  rw [Json.field?, List.find?_append]
  unfold Json.field?
  dsimp only
  cases xs.find? fun f => f.1 == k with
  | _ => rfl

end Js

end Antiproton
