import Antiproton.Core.JsonText

/-!
# Antiproton.Core.Base64

`btoa` and `atob`: binary strings, one unit below 256 a byte, in the base64 alphabet.

* `octets_sextets`: bytes cut into sixes and put together again.
* `atob_unpadded`, `atob_btoa`: `atob` of what `btoa` writes is the string, its padding left off or not.
-/

namespace Antiproton

namespace Js

/-- The unit of the alphabet for six bits. -/
def sextetUnit (n : Nat) : UInt16 :=
  if n < 26 then (65 + n).toUInt16
  else if n < 52 then (71 + n).toUInt16
  else if n < 62 then (n - 4).toUInt16
  else if n = 62 then unit '+'
  else unit '/'

def sextetOf (u : UInt16) : Option Nat :=
  if 65 ≤ u ∧ u ≤ 90 then some (u.toNat - 65)
  else if 97 ≤ u ∧ u ≤ 122 then some (u.toNat - 71)
  else if 48 ≤ u ∧ u ≤ 57 then some (u.toNat + 4)
  else if u = unit '+' then some 62
  else if u = unit '/' then some 63
  else none

/-- Bytes as sixes, the last of them filled with zeros. -/
def sextets : List Nat → List Nat
  | a :: b :: c :: rest => a / 4 :: (a % 4 * 16 + b / 16) :: (b % 16 * 4 + c / 64) :: c % 64 :: sextets rest
  | [a, b] => [a / 4, a % 4 * 16 + b / 16, b % 16 * 4]
  | [a] => [a / 4, a % 4 * 16]
  | [] => []

/-- Sixes as bytes; what is left over is dropped, and one six alone is no byte. -/
def octets : List Nat → Option (List Nat)
  | a :: b :: c :: d :: rest =>
    (octets rest).map fun bytes => (a * 4 + b / 16) :: (b % 16 * 16 + c / 4) :: (c % 4 * 64 + d) :: bytes
  | [a, b, c] => some [a * 4 + b / 16, b % 16 * 16 + c / 4]
  | [a, b] => some [a * 4 + b / 16]
  | [_] => none
  | [] => some []

def encodeSextets (s : Str) : Str := (sextets (s.map (·.toNat))).map sextetUnit

/-- `btoa(s)`, none where it throws. -/
def btoa (s : Str) : Option Str :=
  if s.all fun u => decide (u < 256) then
    some (encodeSextets s ++ List.replicate ((4 - (encodeSextets s).length % 4) % 4) (unit '='))
  else none

def isAsciiSpace (u : UInt16) : Bool := u == 9 || u == 10 || u == 12 || u == 13 || u == 0x20

/-- The string without one trailing `=`. -/
def withoutPad (s : Str) : Str := if s.getLast? = some (unit '=') then s.dropLast else s

def readSextets : Str → Option (List Nat)
  | [] => some []
  | u :: rest =>
    match sextetOf u with
    | none => none
    | some n => (readSextets rest).map (n :: ·)

/-- `atob(s)`, none where it throws. -/
def atob (s : Str) : Option Str :=
  let s := s.filter fun u => !isAsciiSpace u
  let s := if s.length % 4 = 0 then withoutPad (withoutPad s) else s
  match readSextets s with
  | none => none
  | some six => (octets six).map fun bytes => bytes.map (·.toUInt16)

theorem sextets_lt {bytes : List Nat} (h : ∀ b ∈ bytes, b < 256) : ∀ n ∈ sextets bytes, n < 64 := by
  induction bytes using sextets.induct with
  | case1 a b c rest ih =>
    have ha := h a (by simp)
    have hb := h b (by simp)
    have hc := h c (by simp)
    have hrest := ih fun x hx => h x (by simp [hx])
    intro n hn
    simp only [sextets, List.mem_cons] at hn
    rcases hn with rfl | rfl | rfl | rfl | hn
    · omega
    · omega
    · omega
    · omega
    · exact hrest n hn
  | case2 a b =>
    have ha := h a (by simp)
    have hb := h b (by simp)
    intro n hn
    simp only [sextets, List.mem_cons, List.not_mem_nil, or_false] at hn
    rcases hn with rfl | rfl | rfl <;> omega
  | case3 a =>
    have ha := h a (by simp)
    intro n hn
    simp only [sextets, List.mem_cons, List.not_mem_nil, or_false] at hn
    rcases hn with rfl | rfl <;> omega
  | case4 => simp [sextets]

theorem octets_sextets {bytes : List Nat} (h : ∀ b ∈ bytes, b < 256) : octets (sextets bytes) = some bytes := by
  induction bytes using sextets.induct with
  | case1 a b c rest ih =>
    have ha := h a (by simp)
    have hb := h b (by simp)
    have hc := h c (by simp)
    rw [sextets, octets, ih fun x hx => h x (by simp [hx])]
    simp only [Option.map_some, Option.some.injEq, List.cons.injEq, and_true]
    omega
  | case2 a b =>
    have ha := h a (by simp)
    have hb := h b (by simp)
    simp only [sextets, octets, Option.some.injEq, List.cons.injEq, and_true]
    omega
  | case3 a =>
    have ha := h a (by simp)
    simp only [sextets, octets, Option.some.injEq, List.cons.injEq, and_true]
    omega
  | case4 => rfl

theorem sextetOf_sextetUnit {n : Nat} (h : n < 64) : sextetOf (sextetUnit n) = some n := by
  interval_cases n <;> decide

theorem readSextets_map {six : List Nat} (h : ∀ n ∈ six, n < 64) : readSextets (six.map sextetUnit) = some six := by
  induction six with
  | nil => rfl
  | cons n six ih =>
    rw [List.map_cons, readSextets, sextetOf_sextetUnit (h n List.mem_cons_self),
      ih fun m hm => h m (List.mem_cons_of_mem _ hm)]
    rfl

/-- A unit of the alphabet is no blank and no padding. -/
theorem sextetUnit_ne {n : Nat} (h : n < 64) :
    isAsciiSpace (sextetUnit n) = false ∧ sextetUnit n ≠ unit '=' ∧ sextetUnit n ≠ unit '-' ∧ sextetUnit n ≠ unit '_' := by
  interval_cases n <;> decide

theorem byte_of_lt {s : Str} (h : ∀ u ∈ s, u < 256) : ∀ b ∈ s.map (·.toNat), b < 256 := by
  intro b hb
  obtain ⟨u, hu, rfl⟩ := List.mem_map.1 hb
  have := UInt16.lt_iff_toNat_lt.1 (h u hu)
  exact this

theorem mem_encodeSextets {s : Str} (h : ∀ u ∈ s, u < 256) {v : UInt16} (hv : v ∈ encodeSextets s) :
    ∃ n < 64, v = sextetUnit n := by
  obtain ⟨n, hn, rfl⟩ := List.mem_map.1 hv
  exact ⟨n, sextets_lt (byte_of_lt h) n hn, rfl⟩

theorem withoutPad_self {s : Str} (h : ∀ u ∈ s, u ≠ unit '=') : withoutPad s = s := by
  refine if_neg fun hlast => ?_
  exact h _ (List.mem_of_getLast? hlast) rfl

/-- `atob` of the sixes alone, without their padding. -/
theorem atob_unpadded {s : Str} (h : ∀ u ∈ s, u < 256) : atob (encodeSextets s) = some s := by
  have hspace : (encodeSextets s).filter (fun u => !isAsciiSpace u) = encodeSextets s := by
    refine List.filter_eq_self.2 fun v hv => ?_
    obtain ⟨n, hn, rfl⟩ := mem_encodeSextets h hv
    rw [(sextetUnit_ne hn).1]
    rfl
  have hpad : ∀ u ∈ encodeSextets s, u ≠ unit '=' := by
    intro v hv
    obtain ⟨n, hn, rfl⟩ := mem_encodeSextets h hv
    exact (sextetUnit_ne hn).2.1
  have hread : readSextets (encodeSextets s) = some (sextets (s.map (·.toNat))) :=
    readSextets_map (sextets_lt (byte_of_lt h))
  have hback : (s.map (·.toNat)).map (·.toUInt16) = s := by
    rw [List.map_map]
    exact List.map_id'' (fun u => by simp) s
  unfold atob
  dsimp only
  rw [hspace, withoutPad_self hpad, withoutPad_self hpad, ite_self, hread]
  dsimp only
  rw [octets_sextets (byte_of_lt h), Option.map_some, hback]

theorem length_sextets (bytes : List Nat) :
    (sextets bytes).length % 4 ≠ 1 ∧ (sextets bytes).length ≤ (4 * bytes.length + 2) / 3 := by
  induction bytes using sextets.induct with
  | case1 a b c rest ih =>
    simp only [sextets, List.length_cons]
    omega
  | case2 a b => simp [sextets]
  | case3 a => simp [sextets]
  | case4 => simp [sextets]

theorem withoutPad_pad (s : Str) : withoutPad (s ++ [unit '=']) = s := by
  rw [withoutPad, if_pos List.getLast?_concat, List.dropLast_concat]

theorem length_btoa {s t : Str} (h : btoa s = some t) : t.length ≤ (4 * s.length + 2) / 3 + 3 := by
  unfold btoa at h
  split at h
  · cases h
    have hlength := (length_sextets (s.map (·.toNat))).2
    rw [List.length_map] at hlength
    rw [List.length_append, List.length_replicate, encodeSextets, List.length_map]
    omega
  · cases h

/-- `atob` of what `btoa` writes, padding and all. -/
theorem atob_btoa {s t : Str} (h : btoa s = some t) : atob t = some s := by
  unfold btoa at h
  split at h
  · rename_i hbytes
    cases h
    have hlt : ∀ u ∈ s, u < 256 := fun u hu => of_decide_eq_true (List.all_eq_true.1 hbytes u hu)
    have hunpadded := atob_unpadded hlt
    have hpad : ∀ u ∈ encodeSextets s, u ≠ unit '=' := by
      intro v hv
      obtain ⟨n, hn, rfl⟩ := mem_encodeSextets hlt hv
      exact (sextetUnit_ne hn).2.1
    have hspace : (encodeSextets s).filter (fun u => !isAsciiSpace u) = encodeSextets s := by
      refine List.filter_eq_self.2 fun v hv => ?_
      obtain ⟨n, hn, rfl⟩ := mem_encodeSextets hlt hv
      rw [(sextetUnit_ne hn).1]
      rfl
    have hmod : (encodeSextets s).length % 4 ≠ 1 := by
      rw [encodeSextets, List.length_map]
      exact (length_sextets _).1
    have hfilter (k : Nat) : (encodeSextets s ++ List.replicate k (unit '=')).filter (fun u => !isAsciiSpace u) =
        encodeSextets s ++ List.replicate k (unit '=') := by
      rw [List.filter_append, hspace, List.filter_eq_self.2 fun u hu => by rw [List.eq_of_mem_replicate hu]; rfl]
    unfold atob at hunpadded ⊢
    dsimp only at hunpadded ⊢
    rw [hspace, withoutPad_self hpad, withoutPad_self hpad, ite_self] at hunpadded
    rw [hfilter, List.length_append, List.length_replicate, if_pos (by omega)]
    -- the sixes of whole bytes leave room for none, one or two pads
    obtain hk | hk | hk : (4 - (encodeSextets s).length % 4) % 4 = 0 ∨ (4 - (encodeSextets s).length % 4) % 4 = 1 ∨
      (4 - (encodeSextets s).length % 4) % 4 = 2 := by omega
    · rw [hk, List.replicate_zero, List.append_nil, withoutPad_self hpad, withoutPad_self hpad]
      exact hunpadded
    · rw [hk, List.replicate_one, withoutPad_pad, withoutPad_self hpad]
      exact hunpadded
    · have htwo : encodeSextets s ++ List.replicate 2 (unit '=') = encodeSextets s ++ [unit '='] ++ [unit '='] := by
        rw [List.append_assoc]
        rfl
      rw [hk, htwo, withoutPad_pad, withoutPad_pad]
      exact hunpadded
  · cases h

end Js

end Antiproton
