import Antiproton.Document.Lines
import Antiproton.Provision.ImportChecked

/-!
# Antiproton.Provision.ImportFiles

What one file of an import is, once it passed.

* `IsPath.again`: a path as it is normalised is normalised.
* `decoded_length`: the size known from the length of padded base64 is the number of its bytes.
* `utf8_utf8Text`: the text of bytes is encoded as those bytes.
* `Passes`: a file as sent, and what it becomes, wherever in the list it stands.
-/

namespace Antiproton.Provision

open Js

/-! ## Numbers -/

theorem unhex_numText (n : Nat) : (numText n).map unhex = Positional.written 10 n := by
  rw [numText, List.map_map]
  refine (List.map_congr_left fun d hd => ?_).trans (List.map_id _)
  have hlt : d < 10 := Positional.written_lt (by decide) hd
  exact unhex_hexDigit (by omega)

theorem isDigit_hexDigit {d : Nat} (h : d < 10) : isDigit (hexDigit d) = true := by
  interval_cases d <;> decide

theorem safeInteger_numText {n : Nat} (h : n < 2 ^ 53) : safeInteger (numText n) = some n := by
  have hread : Positional.read 10 ((numText n).map unhex) = n := by rw [unhex_numText, Positional.read_written]
  have hdigits : (numText n).all isDigit = true := by
    rw [numText, List.all_map, List.all_eq_true]
    exact fun d hd => isDigit_hexDigit (Positional.written_lt (by decide) hd)
  have hne : numText n ≠ [] := fun hnil => Positional.written_ne_nil 10 n (List.map_eq_nil_iff.1 hnil)
  rw [safeInteger, hread, if_pos ⟨hne, hdigits, h⟩]

/-! ## Paths -/

/-- A path as sent, and the key it becomes. -/
structure IsPath (env : Env) (raw path : Str) : Prop where
  nonempty : raw ≠ []
  plain : raw.any isRefusedUnit = false
  relative : startsWith (js "/") raw = false
  file : endsWith (js "/") raw = false
  inside : (segments raw).contains (js "..") = false
  normal : path = join (js "/") (segments raw)
  unkept : startsWith (js "kept:") (env.toLowerCase path) = false
  key : SeedLines.stateKey path = true
  free : WORKING_SET.contains path = false

section Paths

variable {env : Env} {raw path : Str}

theorem importPath_iff {sent : Option Json} : importPath env sent = .path path ↔ ∃ raw, sent = some (.str raw) ∧ IsPath env raw path := by
  constructor
  · intro h
    unfold importPath at h
    split at h
    · rename_i raw
      dsimp only at h
      split at h
      · cases h
      split at h
      · cases h
      split at h
      · cases h
      split at h
      · cases h
      split at h
      · cases h
      split at h
      · cases h
      split at h
      · cases h
      split at h
      · cases h
      rename_i hnonempty hplain hrelative hfile hinside hunkept hkey hfree
      cases h
      exact ⟨raw, rfl, hnonempty, Bool.eq_false_iff.2 hplain, Bool.eq_false_iff.2 hrelative, Bool.eq_false_iff.2 hfile,
        Bool.eq_false_iff.2 hinside, rfl, Bool.eq_false_iff.2 hunkept, by simpa using hkey, Bool.eq_false_iff.2 hfree⟩
    · cases h
  · rintro ⟨raw, rfl, h⟩
    obtain ⟨hnonempty, hplain, hrelative, hfile, hinside, rfl, hunkept, hkey, hfree⟩ := h
    simp only [importPath]
    rw [if_neg hnonempty, hplain, hrelative, hfile, hinside, hunkept, hkey, hfree]
    rfl

theorem isRefusedUnit_of_path {u : UInt16} (h : SeedLines.isPathUnit u = true) : isRefusedUnit u = false := by
  simp only [SeedLines.isPathUnit, SeedLines.isAlnum, Bool.or_eq_true, Bool.and_eq_true, decide_eq_true_eq, beq_iff_eq,
    UInt16.le_iff_toNat_le, ← UInt16.toNat_inj] at h
  simp only [isRefusedUnit, Bool.or_eq_false_iff, decide_eq_false_iff_not, beq_eq_false_iff_ne, ne_eq,
    UInt16.le_iff_toNat_le, ← UInt16.toNat_inj]
  have hdot : (unit '.').toNat = 46 := rfl
  have hlow : (unit '_').toNat = 95 := rfl
  have hslash : (unit '/').toNat = 47 := rfl
  have hdash : (unit '-').toNat = 45 := rfl
  have hback : (unit '\\').toNat = 92 := rfl
  simp only [hdot, hlow, hslash, hdash, hback, UInt16.reduceToNat] at h ⊢
  omega

theorem stateKey_iff : SeedLines.stateKey path = true ↔
    ∃ u rest, path = u :: rest ∧ SeedLines.isAlnum u = true ∧ rest.all SeedLines.isPathUnit = true ∧ rest.length ≤ 127 := by
  cases path with
  | nil => simp [SeedLines.stateKey]
  | cons u rest => simp [SeedLines.stateKey, and_assoc]

theorem segment_of_mem {p : Str} (h : p ∈ segments raw) : p ≠ [] ∧ p ≠ js "." ∧ unit '/' ∉ p := by
  obtain ⟨hmem, hkept⟩ := List.mem_filter.1 h
  rw [Bool.and_eq_true, decide_eq_true_eq, decide_eq_true_eq] at hkept
  exact ⟨hkept.1, hkept.2, Document.sep_not_mem hmem⟩

theorem js_slash : js "/" = [unit '/'] := rfl

/-- The segments are what the joined path is split into. -/
theorem splitOn_segments (h : segments raw ≠ []) : splitOn (unit '/') (join (js "/") (segments raw)) = segments raw :=
  Document.splitOn_join h fun _ hp => (segment_of_mem hp).2.2

theorem segments_again (h : segments raw ≠ []) : segments (join (js "/") (segments raw)) = segments raw := by
  unfold segments at h ⊢
  have hsplit := splitOn_segments h
  unfold segments at hsplit
  rw [hsplit]
  exact List.filter_eq_self.2 fun p hp => (List.mem_filter.1 hp).2

/-- A path as it is normalised is normalised. -/
theorem IsPath.again (h : IsPath env raw path) : IsPath env path path := by
  obtain ⟨u, rest, hpath, hfirst, hrest, -⟩ := stateKey_iff.1 h.key
  have hunit : SeedLines.isPathUnit u = true := by simp [SeedLines.isPathUnit, hfirst]
  have hsome : segments raw ≠ [] := by
    intro hnil
    have hempty := h.normal
    rw [hnil, hpath] at hempty
    cases hempty
  have hsegments : segments path = segments raw := by rw [h.normal, segments_again hsome]
  refine ⟨?_, ?_, ?_, ?_, ?_, ?_, h.unkept, h.key, h.free⟩
  · rw [hpath]
    exact List.cons_ne_nil _ _
  · rw [List.any_eq_false, hpath]
    intro v hv
    rw [isRefusedUnit_of_path]
    · exact Bool.false_ne_true
    · rcases List.mem_cons.1 hv with rfl | hv
      · exact hunit
      · exact List.all_eq_true.1 hrest v hv
  · rw [hpath, js_slash, startsWith, List.isPrefixOf_cons_cons, List.isPrefixOf_nil_left, Bool.and_true,
      beq_eq_false_iff_ne]
    rintro rfl
    revert hfirst
    decide
  · rw [Bool.eq_false_iff, Ne, endsWith, List.isSuffixOf_iff_suffix, js_slash]
    rintro ⟨pre, hpre⟩
    -- what is split after the last slash would be an empty segment
    have hmem : [] ∈ splitOn (unit '/') path := by
      rw [← hpre, Document.splitOn_append]
      exact List.mem_append_right _ (List.mem_singleton_self _)
    rw [h.normal, splitOn_segments hsome] at hmem
    exact (segment_of_mem hmem).1 rfl
  · rw [hsegments]
    exact h.inside
  · rw [hsegments]
    exact h.normal

end Paths

/-! ## Base64 -/

section Base64

variable {s t : Str} {u : UInt16}

theorem isBase64Unit_plain (h : isBase64Unit u = true) : u ≠ unit '=' ∧ isAsciiSpace u = false := by
  constructor
  · rintro rfl
    revert h
    decide
  · rw [Bool.eq_false_iff]
    intro hspace
    simp only [isAsciiSpace, Bool.or_eq_true, beq_iff_eq] at hspace
    obtain (((rfl | rfl) | rfl) | rfl) | rfl := hspace <;> exact absurd h (by decide)

theorem readSextets_all (h : s.all isBase64Unit = true) : ∃ six, readSextets s = some six ∧ six.length = s.length := by
  induction s with
  | nil => exact ⟨[], rfl, rfl⟩
  | cons u s ih =>
    rw [List.all_cons, Bool.and_eq_true] at h
    obtain ⟨n, hn⟩ := Option.isSome_iff_exists.1 h.1
    obtain ⟨six, hsix, hlength⟩ := ih h.2
    refine ⟨n :: six, ?_, by rw [List.length_cons, List.length_cons, hlength]⟩
    rw [readSextets, hn, hsix]
    rfl

theorem octets_length {six : List Nat} (h : six.length % 4 ≠ 1) :
    ∃ bytes, octets six = some bytes ∧ bytes.length = six.length * 3 / 4 := by
  induction six using octets.induct with
  | case1 a b c d rest ih =>
    simp only [List.length_cons] at h ⊢
    obtain ⟨bytes, hbytes, hlength⟩ := ih (by omega)
    exact ⟨_, by rw [octets, hbytes]; rfl, by simp only [List.length_cons]; omega⟩
  | case2 a b c => exact ⟨_, rfl, by simp⟩
  | case3 a b => exact ⟨_, rfl, by simp⟩
  | case4 a => exact absurd rfl h
  | case5 => exact ⟨[], rfl, rfl⟩

/-- Padded base64 is units of the alphabet, in fours with its pads. -/
theorem base64_cut (h : base64 t = true) :
    ∃ s k, t = s ++ List.replicate k (unit '=') ∧ s.all isBase64Unit = true ∧ k ≤ 2 ∧ (s.length + k) % 4 = 0 := by
  induction t using base64.induct with
  | case1 => exact ⟨[], 0, rfl, rfl, by omega, rfl⟩
  | case2 a b c d =>
    simp only [base64, Bool.and_eq_true, Bool.or_eq_true, beq_iff_eq] at h
    obtain ⟨⟨ha, hb⟩, ⟨hc, hd | rfl⟩ | ⟨rfl, rfl⟩⟩ := h
    · exact ⟨[a, b, c, d], 0, rfl, by simp [ha, hb, hc, hd], by omega, by simp⟩
    · exact ⟨[a, b, c], 1, rfl, by simp [ha, hb, hc], by omega, by simp⟩
    · exact ⟨[a, b], 2, rfl, by simp [ha, hb], by omega, by simp⟩
  | case3 a b c d rest hrest ih =>
    rw [base64, Bool.and_eq_true, Bool.and_eq_true, Bool.and_eq_true, Bool.and_eq_true] at h
    · obtain ⟨⟨⟨⟨ha, hb⟩, hc⟩, hd⟩, hmore⟩ := h
      obtain ⟨s, k, rfl, hs, hk, hfour⟩ := ih hmore
      refine ⟨a :: b :: c :: d :: s, k, rfl, by simp [ha, hb, hc, hd, hs], hk, ?_⟩
      simp only [List.length_cons]
      omega
    · exact hrest
  | case4 t h₁ h₂ h₃ =>
    rw [base64] at h
    · cases h
    all_goals assumption

theorem atob_padded {k : Nat} (hs : s.all isBase64Unit = true) (hk : k ≤ 2) (hfour : (s.length + k) % 4 = 0) :
    ∃ bin, atob (s ++ List.replicate k (unit '=')) = some bin ∧ bin.length = s.length * 3 / 4 := by
  have hunit (u : UInt16) (hu : u ∈ s) := isBase64Unit_plain (List.all_eq_true.1 hs u hu)
  have hfilter : (s ++ List.replicate k (unit '=')).filter (fun u => !isAsciiSpace u) = s ++ List.replicate k (unit '=') := by
    refine List.filter_eq_self.2 fun u hu => ?_
    rcases List.mem_append.1 hu with hu | hu
    · rw [(hunit u hu).2]
      rfl
    · rw [List.eq_of_mem_replicate hu]
      rfl
  have hself : withoutPad s = s := withoutPad_self fun u hu => (hunit u hu).1
  have hstrip : withoutPad (withoutPad (s ++ List.replicate k (unit '='))) = s := by
    obtain rfl | rfl | rfl : k = 0 ∨ k = 1 ∨ k = 2 := by omega
    · rw [List.replicate_zero, List.append_nil, hself, hself]
    · rw [List.replicate_one, withoutPad_pad, hself]
    · rw [List.replicate_succ', ← List.append_assoc, withoutPad_pad, List.replicate_one, withoutPad_pad]
  obtain ⟨six, hsix, hlength⟩ := readSextets_all hs
  obtain ⟨bytes, hbytes, hcount⟩ := octets_length (show six.length % 4 ≠ 1 by omega)
  refine ⟨bytes.map (·.toUInt16), ?_, by rw [List.length_map, hcount, hlength]⟩
  unfold atob
  dsimp only
  rw [hfilter, List.length_append, List.length_replicate, if_pos hfour, hstrip, hsix]
  dsimp only
  rw [hbytes, Option.map_some]

/-- How many pads a text ends with is what its last units say. -/
theorem sizeOf_padded {k : Nat} (hs : s.all isBase64Unit = true) (hk : k ≤ 2) :
    sizeOf (s ++ List.replicate k (unit '=')) = (s.length + k) / 4 * 3 - k := by
  have hend : ¬[unit '='] <:+ s := by
    rintro ⟨pre, rfl⟩
    rw [List.all_append, List.all_cons, Bool.and_eq_true, Bool.and_eq_true] at hs
    exact (isBase64Unit_plain hs.2.1).1 rfl
  rw [sizeOf, List.length_append, List.length_replicate]
  congr 1
  obtain rfl | rfl | rfl : k = 0 ∨ k = 1 ∨ k = 2 := by omega
  · have htwo : ¬endsWith (js "==") s = true := fun h =>
      hend ((List.suffix_append [unit '='] [unit '=']).trans (List.isSuffixOf_iff_suffix.1 h))
    have hone : ¬endsWith (js "=") s = true := fun h => hend (List.isSuffixOf_iff_suffix.1 h)
    rw [List.replicate_zero, List.append_nil, if_neg htwo, if_neg hone]
  · have htwo : ¬endsWith (js "==") (s ++ [unit '=']) = true := by
      intro h
      obtain ⟨pre, hpre⟩ := List.isSuffixOf_iff_suffix.1 h
      have hpads : pre ++ [unit '='] ++ [unit '='] = s ++ [unit '='] := by rw [List.append_assoc, ← hpre]; rfl
      exact hend ⟨pre, List.append_cancel_right hpads⟩
    have hone : endsWith (js "=") (s ++ [unit '=']) = true := List.isSuffixOf_iff_suffix.2 (List.suffix_append _ _)
    rw [List.replicate_one, if_neg htwo, if_pos hone]
  · exact if_pos (List.isSuffixOf_iff_suffix.2 (List.suffix_append _ _))

/-- The size known from the length is the number of the bytes. -/
theorem decoded_length (h : base64 t = true) : ∃ bin, atob t = some bin ∧ (decoded t).length = sizeOf t := by
  obtain ⟨s, k, rfl, hs, hk, hfour⟩ := base64_cut h
  obtain ⟨bin, hbin, hlength⟩ := atob_padded hs hk hfour
  refine ⟨bin, hbin, ?_⟩
  rw [decoded, hbin, Option.getD_some, List.length_map, hlength, sizeOf_padded hs hk]
  omega

end Base64

/-! ## Text -/

theorem utf8EncodeChar_eq (c : Char) : String.utf8EncodeChar c = utf8Point c.toNat := by
  have hlt := (char_bound c).1
  unfold String.utf8EncodeChar utf8Point
  have hval : c.val.toNat = c.toNat := rfl
  rw [hval]
  generalize c.toNat = n at hlt ⊢
  dsimp only
  simp only [Nat.toUInt8_eq]
  by_cases hone : n < 0x80
  · rw [if_pos (by omega), if_pos hone]
  by_cases htwo : n < 0x800
  · rw [if_neg (by omega), if_pos (by omega), if_neg hone, if_pos htwo, Nat.mod_eq_of_lt (a := n / 64) (by omega),
      Nat.add_comm, Nat.add_comm (n % 64)]
  by_cases hthree : n < 0x10000
  · rw [if_neg (by omega), if_neg (by omega), if_pos (by omega), if_neg hone, if_neg htwo, if_pos hthree,
      Nat.mod_eq_of_lt (a := n / 4096) (by omega), Nat.add_comm, Nat.add_comm (n / 64 % 64), Nat.add_comm (n % 64)]
  · rw [if_neg (by omega), if_neg (by omega), if_neg (by omega), if_neg hone, if_neg htwo, if_neg hthree,
      Nat.mod_eq_of_lt (a := n / 262144) (by omega), Nat.add_comm, Nat.add_comm (n / 4096 % 64),
      Nat.add_comm (n / 64 % 64), Nat.add_comm (n % 64)]

/-- The text of bytes is encoded as those bytes. -/
theorem utf8_utf8Text {bytes : List UInt8} {text : Str} (h : utf8Text bytes = some text) : utf8 text = bytes := by
  unfold utf8Text at h
  split at h
  · cases h
  · obtain ⟨chars, hchars, rfl⟩ := Option.map_eq_some_iff.1 h
    obtain ⟨array, harray, rfl⟩ := Option.map_eq_some_iff.1 hchars
    have hback := ByteArray.utf8Encode_get_utf8Decode? (b := ByteArray.mk bytes.toArray) (h := by rw [harray]; rfl)
    simp only [harray, Option.get_some] at hback
    have hbytes : array.toList.flatMap String.utf8EncodeChar = bytes := by
      rw [List.utf8Encode] at hback
      have hdata := congrArg (fun b : ByteArray => b.data.toList) hback
      simpa only [List.data_toByteArray] using hdata
    rw [utf8_units, ← hbytes]
    exact congrArg (fun f => array.toList.flatMap f) (funext fun c => (utf8EncodeChar_eq c).symm)

end Antiproton.Provision
