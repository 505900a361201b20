import Antiproton.Core.Js
import Mathlib.Data.List.Flatten

/-!
# Antiproton.Artifacts.Text

Bytes as text (`textOf`, `src/plugins/binary.ts`), and what `JSON.stringify` makes of a text without half a pair in it.

* `textOf_paired`: a text read from bytes has no surrogate alone.
* `quoteBody_length`: such a text is escaped unit by unit, one unit as up to six.
-/

namespace Antiproton.Artifacts

open Js

/-! ## Text or not -/

/-- The bytes from `at_` on are those of the signature. -/
def signature (b : List UInt8) (at_ : Nat) (sig : Str) : Bool :=
  decide (at_ + sig.length ≤ b.length) && sig.zipIdx.all fun (u, k) => (b.getD (at_ + k) 0).toNat == u.toNat

/-- `sniffImage(b)` is not null. -/
def sniffsImage (b : List UInt8) : Bool :=
  (decide (24 ≤ b.length) && b.getD 0 0 == 0x89 && signature b 1 (js "PNG\r\n\x1a\n") && signature b 12 (js "IHDR")) ||
    (decide (10 ≤ b.length) && (signature b 0 (js "GIF87a") || signature b 0 (js "GIF89a"))) ||
      (decide (16 ≤ b.length) && signature b 0 (js "RIFF") && signature b 8 (js "WEBP")) ||
        (decide (4 ≤ b.length) && b.getD 0 0 == 0xff && b.getD 1 0 == 0xd8 && b.getD 2 0 == 0xff)

/-- `MAGIC`, where each signature stands. -/
def magic : List (Nat × Str) :=
  [(0, js "%PDF-"), (0, js "PK\x03\x04"), (0, js "\x1f\x8b"), (0, js "7z\xbc\xaf\x27\x1c"), (0, js "\xfd7zXZ\x00"),
    (0, js "\x28\xb5\x2f\xfd"), (0, js "\x7fELF"), (0, js "\x00asm"), (257, js "ustar"), (4, js "ftyp")]

/-- `magicType(b)` is not null. -/
def hasMagicType (b : List UInt8) : Bool := sniffsImage b || magic.any fun (at_, sig) => signature b at_ sig

def NUL_WINDOW : Nat := 8 * 1024

def hasEarlyNul (b : List UInt8) : Bool := (b.take NUL_WINDOW).contains 0

/-- `new TextDecoder("utf-8", { fatal: true })`, without its handling of the byte order mark. -/
def utf8Chars (b : List UInt8) : Option (List Char) := (ByteArray.mk b.toArray).utf8Decode?.map (·.toList)

def withoutBom (chars : List Char) : List Char := if chars.head? = some (Char.ofNat 0xFEFF) then chars.tail else chars

def strictUtf8 (b : List UInt8) : Option Str := (utf8Chars b).map fun chars => (withoutBom chars).flatMap unitsOf

def textOf (b : List UInt8) : Option Str :=
  if hasMagicType b then none
  else if hasEarlyNul b then none
  else strictUtf8 b

/-! ## Surrogate pairs -/

/-- Every surrogate is half of a pair. -/
inductive Paired : Str → Prop where
  | nil : Paired []
  | unit {u : UInt16} {s : Str} (hhigh : isHigh u = false) (hlow : isLow u = false) (hs : Paired s) : Paired (u :: s)
  | pair {u v : UInt16} {s : Str} (hhigh : isHigh u = true) (hlow : isLow v = true) (hs : Paired s) : Paired (u :: v :: s)

/-- A position in the middle of a pair. -/
def Splits (s : Str) (n : Nat) : Prop := 0 < n ∧ isHigh (s.getD (n - 1) 0) = true ∧ isLow (s.getD n 0) = true

instance (s : Str) (n : Nat) : Decidable (Splits s n) := inferInstanceAs (Decidable (_ ∧ _ ∧ _))

section Pairs

variable {s t : Str} {u : UInt16} {c : Char} {b : List UInt8}

theorem toNat_of_lt {n : Nat} (h : n < 0x10000) : n.toUInt16.toNat = n := by
  change (UInt16.ofNat n).toNat = n
  rw [UInt16.toNat_ofNat']
  exact Nat.mod_eq_of_lt h

theorem isHigh_iff : isHigh u = true ↔ 0xD800 ≤ u.toNat ∧ u.toNat ≤ 0xDBFF := by
  simp [isHigh, UInt16.le_iff_toNat_le]

theorem isLow_iff : isLow u = true ↔ 0xDC00 ≤ u.toNat ∧ u.toNat ≤ 0xDFFF := by
  simp [isLow, UInt16.le_iff_toNat_le]

/-- No unit is both halves of a pair. -/
theorem not_isLow (h : isHigh u = true) : isLow u = false := by
  rw [Bool.eq_false_iff, ne_eq, isLow_iff]
  rw [isHigh_iff] at h
  omega

theorem paired_unitsOf (c : Char) (hs : Paired s) : Paired (unitsOf c ++ s) := by
  have hvalid : c.toNat < 0xD800 ∨ 0xDFFF < c.toNat ∧ c.toNat < 0x110000 := c.valid
  unfold unitsOf
  split
  · rename_i hlt
    refine .unit ?_ ?_ hs
    · rw [Bool.eq_false_iff, ne_eq, isHigh_iff, toNat_of_lt hlt]
      omega
    · rw [Bool.eq_false_iff, ne_eq, isLow_iff, toNat_of_lt hlt]
      omega
  · refine .pair ?_ ?_ hs
    · rw [isHigh_iff, toNat_of_lt (by omega)]
      omega
    · rw [isLow_iff, toNat_of_lt (by omega)]
      omega

theorem paired_flatMap (chars : List Char) : Paired (chars.flatMap unitsOf) := by
  induction chars with
  | nil => exact .nil
  | cons c chars ih => exact paired_unitsOf c ih

/-- A text is cut into two where no pair is. -/
theorem Paired.split (h : Paired (s ++ t)) (hcut : ¬Splits (s ++ t) s.length) : Paired s ∧ Paired t := by
  generalize hw : s ++ t = w at h hcut
  induction h generalizing s with
  | nil =>
    obtain ⟨rfl, rfl⟩ := List.append_eq_nil_iff.1 hw
    exact ⟨.nil, .nil⟩
  | @unit u w hhigh hlow hs ih =>
    cases s with
    | nil =>
      rw [List.nil_append] at hw
      exact ⟨.nil, hw ▸ .unit hhigh hlow hs⟩
    | cons u' s =>
      obtain ⟨rfl, rfl⟩ := List.cons.inj hw
      obtain ⟨hleft, hright⟩ := ih rfl fun h => hcut ⟨Nat.succ_pos _, by
        obtain ⟨hpos, hh, hl⟩ := h
        obtain ⟨n, hn⟩ : ∃ n, s.length = n + 1 := ⟨s.length - 1, by omega⟩
        rw [hn] at hh hl
        rw [List.length_cons, hn]
        exact ⟨hh, hl⟩⟩
      exact ⟨.unit hhigh hlow hleft, hright⟩
  | @pair u v w hhigh hlow hs ih =>
    cases s with
    | nil =>
      rw [List.nil_append] at hw
      exact ⟨.nil, hw ▸ .pair hhigh hlow hs⟩
    | cons u' s =>
      cases s with
      | nil =>
        obtain ⟨rfl, rfl⟩ := List.cons.inj hw
        exact absurd ⟨Nat.one_pos, hhigh, hlow⟩ hcut
      | cons v' s =>
        obtain ⟨rfl, hrest⟩ := List.cons.inj hw
        obtain ⟨rfl, rfl⟩ := List.cons.inj hrest
        obtain ⟨hleft, hright⟩ := ih rfl fun h => hcut ⟨Nat.succ_pos _, by
          obtain ⟨hpos, hh, hl⟩ := h
          obtain ⟨n, hn⟩ : ∃ n, s.length = n + 1 := ⟨s.length - 1, by omega⟩
          rw [hn] at hh hl
          rw [List.length_cons, List.length_cons, hn]
          exact ⟨hh, hl⟩⟩
        exact ⟨.pair hhigh hlow hleft, hright⟩

/-- A high surrogate is followed by a low one. -/
theorem Paired.low (h : Paired s) {n : Nat} (hn : isHigh (s.getD n 0) = true) : isLow (s.getD (n + 1) 0) = true := by
  induction h generalizing n with
  | nil => cases hn
  | @unit u s hhigh hlow hs ih =>
    cases n with
    | zero => exact absurd hn (by rw [List.getD_cons_zero, hhigh]; exact Bool.false_ne_true)
    | succ n => exact ih hn
  | @pair u v s hhigh hlow hs ih =>
    cases n with
    | zero => exact hlow
    | succ n =>
      cases n with
      | zero =>
        have hv := not_isLow (u := v) hn
        rw [hlow] at hv
        cases hv
      | succ n => exact ih hn

/-- A text read from bytes has no surrogate alone. -/
theorem textOf_paired (h : textOf b = some s) : Paired s := by
  unfold textOf at h
  split at h
  · cases h
  · split at h
    · cases h
    · obtain ⟨chars, -, rfl⟩ := Option.map_eq_some_iff.1 h
      exact paired_flatMap _

theorem length_unitsOf_le (c : Char) : (unitsOf c).length ≤ c.utf8Size := by
  have hpos := c.utf8Size_pos
  unfold unitsOf
  split
  · exact hpos
  · rename_i hge
    have hsize : c.utf8Size = 4 := Char.utf8Size_eq_four_iff.2 (by
      rw [UInt32.lt_iff_toNat_lt]
      change 65535 < c.toNat
      omega)
    rw [hsize, List.length_cons, List.length_singleton]
    omega

theorem length_flatMap_unitsOf (chars : List Char) : (chars.flatMap unitsOf).length ≤ chars.utf8Encode.size := by
  induction chars with
  | nil => exact Nat.zero_le _
  | cons c chars ih =>
    have hc := length_unitsOf_le c
    have hsize : [c].utf8Encode.size = c.utf8Size := by
      rw [List.utf8Encode_singleton, List.size_toByteArray, String.length_utf8EncodeChar]
    rw [List.flatMap_cons, List.length_append, List.utf8Encode_cons, ByteArray.size_append, hsize]
    omega

theorem length_withoutBom (chars : List Char) :
    ((withoutBom chars).flatMap unitsOf).length ≤ (chars.flatMap unitsOf).length := by
  unfold withoutBom
  split
  · exact (chars.tail_sublist.flatMap unitsOf).length_le
  · exact le_refl _

/-- A text has no more units than its bytes. -/
theorem textOf_length (h : textOf b = some s) : s.length ≤ b.length := by
  unfold textOf at h
  split at h
  · cases h
  · split at h
    · cases h
    · obtain ⟨chars, hchars, rfl⟩ := Option.map_eq_some_iff.1 h
      obtain ⟨array, harray, rfl⟩ := Option.map_eq_some_iff.1 hchars
      have hback := ByteArray.utf8Encode_get_utf8Decode? (b := ByteArray.mk b.toArray) (h := by rw [harray]; rfl)
      simp only [harray, Option.get_some] at hback
      have hlength := (length_withoutBom array.toList).trans (length_flatMap_unitsOf array.toList)
      rw [hback] at hlength
      exact hlength

end Pairs

/-! ## Escapes -/

/-- How many units `JSON.stringify` makes of one. -/
def escapeCost (u : UInt16) : Nat :=
  if u = unit '"' ∨ u = unit '\\' ∨ u = 8 ∨ u = 9 ∨ u = 10 ∨ u = 12 ∨ u = 13 then 2
  else if u < 0x20 then 6
  else 1

theorem length_quoteUnit {u : UInt16} (hhigh : isHigh u = false) (hlow : isLow u = false) :
    (quoteUnit u).length = escapeCost u := by
  unfold escapeCost
  by_cases h : u = unit '"' ∨ u = unit '\\' ∨ u = 8 ∨ u = 9 ∨ u = 10 ∨ u = 12 ∨ u = 13
  · rw [if_pos h]
    rcases h with rfl | rfl | rfl | rfl | rfl | rfl | rfl <;> rfl
  · rw [if_neg h]
    simp only [not_or] at h
    obtain ⟨h1, h2, h3, h4, h5, h6, h7⟩ := h
    rw [quoteUnit, if_neg h1, if_neg h2, if_neg h3, if_neg h4, if_neg h5, if_neg h6, if_neg h7, hhigh, hlow]
    split <;> rfl

theorem escapeCost_one {u : UInt16} (h : 32 ≤ u.toNat) (hquote : u ≠ unit '"') (hback : u ≠ unit '\\') :
    escapeCost u = 1 := by
  unfold escapeCost
  rw [if_neg, if_neg]
  · rw [UInt16.lt_iff_toNat_lt]
    exact Nat.not_lt.2 h
  · rintro (hu | hu | rfl | rfl | rfl | rfl | rfl)
    · exact hquote hu
    · exact hback hu
    all_goals exact absurd h (by decide)

theorem escapeCost_half {u : UInt16} (h : isHigh u = true ∨ isLow u = true) : escapeCost u = 1 := by
  rw [isHigh_iff, isLow_iff] at h
  have hge : 0xD800 ≤ u.toNat := by omega
  refine escapeCost_one (by omega) ?_ ?_
  · rintro rfl
    exact absurd hge (by decide)
  · rintro rfl
    exact absurd hge (by decide)

/-- How many units `JSON.stringify` makes of a text, its quotes apart. -/
def cost (s : Str) : Nat := (s.map escapeCost).sum

theorem cost_cons (u : UInt16) (s : Str) : cost (u :: s) = escapeCost u + cost s := by
  rw [cost, List.map_cons, List.sum_cons, cost]

/-- What is not escaped stays as long as it is. -/
theorem cost_length {s : Str} (h : ∀ u ∈ s, escapeCost u = 1) : cost s = s.length := by
  induction s with
  | nil => rfl
  | cons u s ih =>
    rw [cost_cons, h u List.mem_cons_self, ih fun v hv => h v (List.mem_cons_of_mem _ hv), List.length_cons, Nat.add_comm]

theorem cost_append (s t : Str) : cost (s ++ t) = cost s + cost t := by
  rw [cost, List.map_append, List.sum_append, cost, cost]

/-- A text is escaped unit by unit. -/
theorem quoteBody_length {s : Str} (h : Paired s) : (quoteBody s).length = cost s := by
  induction h with
  | nil => rfl
  | @unit u s hhigh hlow hs ih =>
    have hu := length_quoteUnit hhigh hlow
    cases s with
    | nil => rw [quoteBody, hu, cost, List.map_singleton, List.sum_singleton]
    | cons v s =>
      have hno : (isHigh u && isLow v) = false := by rw [hhigh, Bool.false_and]
      rw [quoteBody, hno, if_neg Bool.false_ne_true, List.length_append, ih, hu]
      rfl
  | @pair u v s hhigh hlow hs ih =>
    have hpair : (isHigh u && isLow v) = true := by rw [hhigh, hlow, Bool.and_self]
    rw [quoteBody, if_pos hpair, List.length_cons, List.length_cons, ih, cost_cons, cost_cons, escapeCost_half (.inl hhigh),
      escapeCost_half (.inr hlow)]
    omega

theorem length_quote {s : Str} (h : Paired s) : (quote s).length = cost s + 2 := by
  rw [quote, List.length_append, List.length_cons, quoteBody_length h, List.length_singleton]

/-- ASCII. -/
def Plain (s : Str) : Prop := ∀ u ∈ s, u < 128

instance (s : Str) : Decidable (Plain s) := List.decidableBAll (fun u => u < 128) s

theorem plain_append {s t : Str} : Plain (s ++ t) ↔ Plain s ∧ Plain t := List.forall_mem_append

theorem Plain.paired {s : Str} (h : Plain s) : Paired s := by
  induction s with
  | nil => exact .nil
  | cons u s ih =>
    have hu : u.toNat < 128 := UInt16.lt_iff_toNat_lt.1 (h u List.mem_cons_self)
    refine .unit ?_ ?_ (ih fun v hv => h v (List.mem_cons_of_mem _ hv))
    · rw [Bool.eq_false_iff, ne_eq, isHigh_iff]
      omega
    · rw [Bool.eq_false_iff, ne_eq, isLow_iff]
      omega

end Antiproton.Artifacts
