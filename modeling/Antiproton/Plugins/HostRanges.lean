import Antiproton.Document.Lines
import Antiproton.Plugins.Hosts

/-!
# Antiproton.Plugins.HostRanges

What `internalHost` finds of a host as `URL` spells it.

* `groupsOf_text`: the groups of an IPv6 address are read back from its text, wherever its zeros are left out.
* `internalV4_eq`, `internalV6_eq`: the ranges of the check are those of `Plugins/Hosts.lean`.
* `internalHost_name`: a name is refused by its dots and suffixes, or by an inward address at a place the scan looks at.
* `inward_hosts`: so every address is judged rightly, and a name exactly where the scan looks.
-/

namespace Antiproton.Plugins.Hosts

open Js Blocks

/-! ## Ranges -/

theorem internalV4_eq {a b : Nat} (c d : Nat) (ha : a < 256) (hb : b < 256) :
    internalV4 [a, b, c, d] = nonPublic [a, b, c, d] := by
  have h100 : b / 2 ^ 6 = 64 / 2 ^ 6 ↔ 64 ≤ b ∧ b ≤ 127 := by omega
  have h172 : b / 2 ^ 4 = 16 / 2 ^ 4 ↔ 16 ≤ b ∧ b ≤ 31 := by omega
  have h198 : b / 2 ^ 1 = 18 / 2 ^ 1 ↔ b = 18 ∨ b = 19 := by omega
  have h224 : 224 ≤ a ↔ a / 2 ^ 4 = 224 / 2 ^ 4 ∨ a / 2 ^ 4 = 240 / 2 ^ 4 := by omega
  rw [Bool.eq_iff_iff]
  simp only [internalV4, nonPublic, NON_PUBLIC, Block.holds, under, List.any_cons, List.any_nil, List.getD_cons_zero,
    List.getD_cons_succ, Bool.or_eq_true, Bool.and_eq_true, beq_iff_eq, decide_eq_true_eq, Bool.or_false, Bool.and_true,
    Nat.reduceLeDiff, reduceIte, Nat.reduceSub, and_assoc, h100, h172, h198, h224]
  exact iff_of_eq (by ac_rfl)

/-- The address two groups carry. -/
theorem carried_eq {hi lo : Nat} (hhi : hi < 65536) :
    internalV4 [hi >>> 8, hi &&& 255, lo >>> 8, lo &&& 255] = nonPublic [hi / 256, hi % 256, lo / 256, lo % 256] := by
  have hshift : ∀ n : Nat, n >>> 8 = n / 256 := fun n => Nat.shiftRight_eq_div_pow n 8
  have hmask : ∀ n : Nat, n &&& 255 = n % 256 := fun n => Nat.and_two_pow_sub_one_eq_mod n 8
  rw [hshift, hshift, hmask, hmask, internalV4_eq _ _ (by omega) (by omega)]

/-- Tests with one answer are one test. -/
theorem tests_join (a b c d low x : Bool) :
    (if a then low else if b then low else if c then low else if d then low else x) =
      if a || (b || (c || d)) then low else x := by
  cases a with
  | true => rfl
  | false =>
    cases b with
    | true => rfl
    | false =>
      cases c with
      | true => rfl
      | false => rfl

/-- The order of the tests does not matter, as those that carry an address exclude those that come after them. -/
theorem tests_eq (local_ link low carries nat64 sixToFour high zero : Bool)
    (hcarries : carries = true → nat64 = false ∧ sixToFour = false) (hzero : zero = true → carries = true ∧ low = true) :
    (if local_ then true else if link then true else if carries then low else if nat64 then true
      else if sixToFour then high else false) =
      (zero || (local_ || (link || nat64)) || (carries && low || sixToFour && high)) := by
  cases local_ with
  | true => simp
  | false =>
    cases link with
    | true => simp
    | false =>
      cases carries with
      | true =>
        obtain ⟨h, h'⟩ := hcarries rfl
        cases low with
        | true => simp [h, h']
        | false =>
          cases zero with
          | true => exact absurd (hzero rfl).2 Bool.false_ne_true
          | false => simp [h, h']
      | false =>
        cases zero with
        | true => exact absurd (hzero rfl).1 Bool.false_ne_true
        | false =>
          cases nat64 with
          | true => simp
          | false =>
            cases sixToFour with
            | true => simp
            | false => simp

theorem internalV6_eq {x : V6} {v6 : Str} (h : groupsOf v6 = some x.groups) : internalV6 v6 = x.inward := by
  obtain ⟨g, height, hsmall⟩ := x
  obtain ⟨a, b, c, d, e, f, k, l, rfl⟩ : ∃ a b c d e f k l, g = [a, b, c, d, e, f, k, l] := by
    match g, height with
    | [a, b, c, d, e, f, k, l], _ => exact ⟨a, b, c, d, e, f, k, l, rfl⟩
  have ha : a < 65536 := hsmall a (by simp)
  have hb : b < 65536 := hsmall b (by simp)
  have hk : k < 65536 := hsmall k (by simp)
  have hlocal : (a / 512 == 126) = (decide (64512 ≤ a) && decide (a ≤ 65023)) := by
    rw [Bool.eq_iff_iff]
    simp only [beq_iff_eq, Bool.and_eq_true, decide_eq_true_eq]
    omega
  have hlink : (a / 64 == 1018 || (a / 64 == 1019 || a / 256 == 255)) = (decide (65152 ≤ a) && decide (a ≤ 65535)) := by
    rw [Bool.eq_iff_iff]
    simp only [beq_iff_eq, Bool.and_eq_true, Bool.or_eq_true, decide_eq_true_eq]
    omega
  have hthis : k = 0 → nonPublic [k / 256, k % 256, l / 256, l % 256] = true := by
    rintro rfl
    rfl
  unfold internalV6 V6.inward
  rw [h]
  simp only [List.getD_cons_zero, List.getD_cons_succ, List.take_succ_cons, List.take_zero, List.drop_zero, List.drop_succ_cons,
    List.all_cons, List.all_nil, Bool.and_true, Bool.and_assoc, carried_eq hb, carried_eq hk, INWARD, CARRIERS, carried, List.any_cons,
    List.any_nil, Bool.or_false, Block.holds, under, Nat.reduceLeDiff, reduceIte, Nat.reduceSub, Nat.reducePow, Nat.reduceDiv]
  generalize nonPublic [k / 256, k % 256, l / 256, l % 256] = low at hthis ⊢
  generalize nonPublic [b / 256, b % 256, c / 256, c % 256] = high
  rw [tests_join, tests_eq _ _ _ _ _ _ _ ((a == 0 && (b == 0 && (c == 0 && (d == 0 && (e == 0 && (f == 0 && (k == 0 && l == 0))))))) ||
    (a == 0 && (b == 0 && (c == 0 && (d == 0 && (e == 0 && (f == 0 && (k == 0 && l == 1))))))))]
  · rw [hlocal, ← hlink, Bool.and_or_distrib_right, Bool.and_or_distrib_right, Bool.and_or_distrib_right]
    simp only [Bool.or_assoc, Bool.and_assoc]
  · intro hc
    rw [Bool.eq_false_iff, Bool.eq_false_iff]
    simp only [Bool.or_eq_true, Bool.and_eq_true, beq_iff_eq, ne_eq] at hc ⊢
    omega
  · intro hz
    simp only [Bool.or_eq_true, Bool.and_eq_true, beq_iff_eq] at hz ⊢
    have hk0 : k = 0 := by omega
    exact ⟨.inl (by omega), hthis hk0⟩

/-! ## Numbers as text -/

/-- A hexadecimal digit is read back, and is none of the units that mean something else. -/
theorem hexDigit_plain {n : Nat} (h : n < 16) :
    hexValue (hexDigit n) = some n ∧ isSpace (hexDigit n) = false ∧
      hexDigit n ∉ ([unit ':', unit '.', unit '[', unit '-', unit '+', unit 'x', unit 'X'] : Str) ∧
      (unit 'A' ≤ hexDigit n && hexDigit n ≤ unit 'Z') = false := by
  have hall : ∀ n : Fin 16, hexValue (hexDigit n) = some n.1 ∧ isSpace (hexDigit n) = false ∧
      hexDigit n ∉ ([unit ':', unit '.', unit '[', unit '-', unit '+', unit 'x', unit 'X'] : Str) ∧
      (unit 'A' ≤ hexDigit n && hexDigit n ≤ unit 'Z') = false := by decide
  exact hall ⟨n, h⟩

theorem hexDigit_digit {n : Nat} (h : n < 10) : isDigit (hexDigit n) = true ∧ (hexDigit n).toNat - 48 = n := by
  have hall : ∀ n : Fin 10, isDigit (hexDigit n) = true ∧ (hexDigit n).toNat - 48 = n.1 := by decide
  exact hall ⟨n, h⟩

variable {n : Nat} {u : UInt16}

theorem hexText_ne_nil (n : Nat) : hexText n ≠ [] := by
  rw [hexText, Ne, List.map_eq_nil_iff]
  exact Positional.written_ne_nil 16 n

theorem mem_hexText (h : u ∈ hexText n) : ∃ d < 16, u = hexDigit d := by
  obtain ⟨d, hd, rfl⟩ := List.mem_map.1 h
  exact ⟨d, Positional.written_lt (by omega) hd, rfl⟩

theorem colon_not_mem (n : Nat) : unit ':' ∉ hexText n := by
  intro h
  obtain ⟨d, hd, hu⟩ := mem_hexText h
  exact (hexDigit_plain hd).2.2.1 (hu ▸ by simp)

theorem hexDigits_hexText (n : Nat) : hexDigits (hexText n) = Positional.written 16 n := by
  have hread : ∀ d ∈ Positional.written 16 n, hexValue (hexDigit d) = some d := fun d hd =>
    (hexDigit_plain (Positional.written_lt (by omega) hd)).1
  have hall : (hexText n).takeWhile (fun u => (hexValue u).isSome) = hexText n := by
    refine List.takeWhile_eq_self_iff.2 fun u hu => ?_
    obtain ⟨d, hd, rfl⟩ := List.mem_map.1 hu
    rw [hread d hd]
    rfl
  rw [hexDigits, hall, hexText, List.filterMap_map]
  exact (List.filterMap_congr hread).trans List.filterMap_some

theorem not_startsWith {t s : Str} {u : UInt16} (hu : u ∈ t) (hs : u ∉ s) : startsWith t s = false := by
  rw [startsWith, Bool.eq_false_iff, Ne, List.isPrefixOf_iff_prefix]
  exact fun h => hs (h.subset hu)

/-- `parseInt` reads a group back. -/
theorem parseHex_hexText (n : Nat) : parseHex (hexText n) = some (n : Int) := by
  obtain ⟨u, rest, hcons⟩ := List.exists_cons_of_ne_nil (hexText_ne_nil n)
  obtain ⟨d, hd, hu⟩ := mem_hexText (n := n) (u := u) (by rw [hcons]; exact List.mem_cons_self)
  obtain ⟨-, hspace, hother, -⟩ := hexDigit_plain hd
  rw [← hu] at hspace hother
  have hplain : ∀ v ∈ hexText n, v ∉ ([unit ':', unit '.', unit '[', unit '-', unit '+', unit 'x', unit 'X'] : Str) := by
    intro v hv
    obtain ⟨e, he, rfl⟩ := mem_hexText hv
    exact (hexDigit_plain he).2.2.1
  have hminus : (some u == some (unit '-')) = false := beq_eq_false_iff_ne.2 fun h => hother (by simp [Option.some.inj h])
  have hplus : (some u == some (unit '+')) = false := beq_eq_false_iff_ne.2 fun h => hother (by simp [Option.some.inj h])
  have hdrop : (hexText n).dropWhile isSpace = hexText n := by
    rw [hcons, List.dropWhile_cons_of_neg (by rw [hspace]; exact Bool.false_ne_true)]
  have hlow : startsWith (js "0x") (hexText n) = false :=
    not_startsWith (u := unit 'x') (by decide) fun h => hplain _ h (by simp)
  have hhigh : startsWith (js "0X") (hexText n) = false :=
    not_startsWith (u := unit 'X') (by decide) fun h => hplain _ h (by simp)
  have hhead : (hexText n).head? = some u := by rw [hcons]; rfl
  unfold parseHex
  simp only [hdrop, hhead, hminus, hplus, Bool.or_false, if_neg Bool.false_ne_true, hlow, hhigh, hexDigits_hexText,
    if_neg (Positional.written_ne_nil 16 n), Positional.read_written]

/-! ## IPv6 text -/

/-- Groups as they are written between two places where zeros are left out. -/
def written (g : List Nat) : Str := join (js ":") (g.map hexText)

theorem splitTwice_cons {c : UInt16} (hc : c ≠ u) (s : Str) : splitTwice u (c :: s) = (splitTwice u s).modifyHead (c :: ·) := by
  cases s with
  | nil => rfl
  | cons d s => rw [splitTwice, if_neg fun h => hc h.1]

theorem splitTwice_free {p : Str} (hp : u ∉ p) (s : Str) : splitTwice u (p ++ s) = (splitTwice u s).modifyHead (p ++ ·) := by
  induction p with
  | nil => exact (congrFun List.modifyHead_id _).symm
  | cons c p ih =>
    have hc : c ≠ u := fun h => hp (h ▸ List.mem_cons_self)
    rw [List.cons_append, splitTwice_cons hc, ih fun h => hp (List.mem_cons_of_mem _ h), List.modifyHead_modifyHead]
    rfl

/-- A separator with something else after it splits nothing. -/
theorem splitTwice_one {c : UInt16} (hc : c ≠ u) (s : Str) :
    splitTwice u (u :: c :: s) = (splitTwice u (c :: s)).modifyHead (u :: ·) := by
  rw [splitTwice, if_neg fun h => hc h.2]

theorem written_cons (n m : Nat) (g : List Nat) : written (n :: m :: g) = hexText n ++ js ":" ++ written (m :: g) := rfl

theorem written_head (n : Nat) (g : List Nat) (s : Str) : ∃ c rest, written (n :: g) ++ s = c :: rest ∧ c ≠ unit ':' := by
  obtain ⟨c, rest, hcons⟩ := List.exists_cons_of_ne_nil (hexText_ne_nil n)
  have hc : c ≠ unit ':' := fun h => colon_not_mem n (by rw [hcons, h]; exact List.mem_cons_self)
  cases g with
  | nil => exact ⟨c, rest ++ s, by rw [← List.cons_append, ← hcons]; rfl, hc⟩
  | cons m g =>
    refine ⟨c, rest ++ (js ":" ++ written (m :: g)) ++ s, ?_, hc⟩
    rw [written_cons, List.append_assoc, ← List.cons_append, ← List.cons_append, ← hcons, List.append_assoc, List.append_assoc,
      List.append_assoc]

theorem splitTwice_written (g : List Nat) (s : Str) :
    splitTwice (unit ':') (written g ++ s) = (splitTwice (unit ':') s).modifyHead (written g ++ ·) := by
  induction g with
  | nil => exact (congrFun List.modifyHead_id _).symm
  | cons n g ih =>
    cases g with
    | nil => exact splitTwice_free (colon_not_mem n) s
    | cons m g =>
      have hwritten : written (n :: m :: g) ++ s = hexText n ++ (unit ':' :: (written (m :: g) ++ s)) := by
        rw [written_cons, List.append_assoc, List.append_assoc]
        rfl
      obtain ⟨c, rest, hcons, hc⟩ := written_head m g s
      rw [hwritten, splitTwice_free (colon_not_mem n), hcons, splitTwice_one hc, ← hcons, ih, List.modifyHead_modifyHead,
        List.modifyHead_modifyHead]
      congr 1
      funext t
      change hexText n ++ (unit ':' :: (written (m :: g) ++ t)) = written (n :: m :: g) ++ t
      rw [written_cons, List.append_assoc, List.append_assoc]
      rfl

theorem splitTwice_written_end (g : List Nat) : splitTwice (unit ':') (written g) = [written g] := by
  have h := splitTwice_written g []
  rw [List.append_nil] at h
  rw [h, splitTwice, List.modifyHead_cons, List.append_nil]

/-- The groups between two places are read back. -/
theorem groupsPart_written (g : List Nat) : groupsPart (written g) = g.map fun n : Nat => some (n : Int) := by
  unfold groupsPart
  cases g with
  | nil => rfl
  | cons n g =>
    have hne : written (n :: g) ≠ [] := by
      obtain ⟨c, rest, hcons, -⟩ := written_head n g []
      rw [List.append_nil] at hcons
      rw [hcons]
      exact List.cons_ne_nil _ _
    rw [if_neg hne]
    have hsplit : splitOn (unit ':') (written (n :: g)) = (n :: g).map hexText :=
      Document.splitOn_join (by simp) fun l hl => by
        obtain ⟨m, -, rfl⟩ := List.mem_map.1 hl
        exact colon_not_mem m
    rw [hsplit, List.map_map]
    exact List.map_congr_left fun m _ => parseHex_hexText m

theorem isGroup_of_lt {m : Nat} (h : m < 65536) : isGroup (some (m : Int)) = true := by
  unfold isGroup
  rw [Option.any_some, decide_eq_true (by omega), decide_eq_true (by omega)]
  rfl

theorem groupValue_map (g : List Nat) : (g.map fun n : Nat => some (n : Int)).map groupValue = g := by
  rw [List.map_map]
  exact (List.map_congr_left fun m _ => Int.toNat_natCast m).trans (List.map_id g)

theorem all_groups {g : List Nat} (h : ∀ n ∈ g, n < 65536) : (g.map fun n : Nat => some (n : Int)).all isGroup = true := by
  rw [List.all_map]
  exact List.all_eq_true.2 fun n hn => isGroup_of_lt (h n hn)

/-- Eight groups written out. -/
theorem groupsOf_whole {g : List Nat} (height : g.length = 8) (hsmall : ∀ n ∈ g, n < 65536) : groupsOf (written g) = some g := by
  unfold groupsOf
  simp only [splitTwice_written_end, List.length_singleton, List.headD_cons, groupsPart_written, Nat.reduceLT, Nat.reduceEqDiff,
    reduceIte, List.append_nil, List.length_map, List.length_nil, all_groups hsmall, groupValue_map, height]
  simp

/-- Groups with the zeros between them left out. -/
theorem groupsOf_cut {head tail : List Nat} {k : Nat} (hlength : head.length + k + tail.length = 8)
    (hsmall : ∀ n ∈ head ++ tail, n < 65536) :
    groupsOf (written head ++ js "::" ++ written tail) = some (head ++ List.replicate k 0 ++ tail) := by
  have hsplit : splitTwice (unit ':') (written head ++ js "::" ++ written tail) = [written head, written tail] := by
    have hcolons : js "::" ++ written tail = unit ':' :: unit ':' :: written tail := rfl
    rw [List.append_assoc, splitTwice_written, hcolons, splitTwice, if_pos ⟨rfl, rfl⟩, splitTwice_written_end,
      List.modifyHead_cons, List.append_nil]
  have hfill : (8 : Int) - head.length - tail.length = k := by omega
  unfold groupsOf
  simp only [hsplit, List.length_cons, List.length_nil, List.headD_cons, List.getD_cons_succ, List.getD_cons_zero,
    groupsPart_written, Nat.reduceAdd, Nat.reduceLT, Nat.reduceEqDiff, reduceIte, List.length_map, hfill, groupValue_map,
    ← List.map_append, all_groups hsmall, Int.toNat_natCast]
  simp

theorem zeros_drop (g : List Nat) (i : Nat) :
    g = g.take i ++ List.replicate (zerosAt g i) 0 ++ g.drop (i + zerosAt g i) := by
  have hzeros : (g.drop i).take (zerosAt g i) = List.replicate (zerosAt g i) 0 := by
    have htake : (g.drop i).take (zerosAt g i) = (g.drop i).takeWhile (· == 0) := by
      conv_lhs => rw [← List.takeWhile_append_dropWhile (p := (· == 0)) (l := g.drop i)]
      exact List.take_left
    rw [htake]
    refine List.eq_replicate_iff.2 ⟨rfl, fun n hn => ?_⟩
    have hzero := List.mem_takeWhile_imp (p := fun n : Nat => n == 0) hn
    exact beq_iff_eq.1 hzero
  rw [← hzeros, ← List.drop_drop, List.append_assoc, List.take_append_drop, List.take_append_drop]

/-- The groups of an address are read back from its text. -/
theorem groupsOf_text (x : V6) : groupsOf x.text = some x.groups := by
  unfold V6.text
  dsimp only
  cases compressAt x.groups with
  | none => exact groupsOf_whole x.eight x.small
  | some i =>
    have hparts := zeros_drop x.groups i
    have hlength := congrArg List.length hparts
    rw [List.length_append, List.length_append, List.length_replicate, x.eight] at hlength
    have hsmall : ∀ n ∈ x.groups.take i ++ x.groups.drop (i + zerosAt x.groups i), n < 65536 := by
      intro n hn
      rcases List.mem_append.1 hn with hn | hn
      · exact x.small n (List.mem_of_mem_take hn)
      · exact x.small n (List.mem_of_mem_drop hn)
    have hcut := groupsOf_cut hlength.symm hsmall
    rw [← hparts] at hcut
    exact hcut

/-! ## Hosts -/

theorem lowerAscii_plain {s : Str} (h : ∀ u ∈ s, (unit 'A' ≤ u && u ≤ unit 'Z') = false) : lowerAscii s = s := by
  unfold lowerAscii
  refine (List.map_congr_left fun u hu => ?_).trans (List.map_id s)
  rw [h u hu]
  rfl

theorem bare_of_last {s : Str} (hu : u ≠ unit '.') : bare (s ++ [u]) = s ++ [u] :=
  List.rdropWhile_concat_neg _ _ _ (by rw [beq_eq_false_iff_ne.2 hu]; exact Bool.false_ne_true)

theorem plain_v6 (x : V6) : ∀ u ∈ x.text, (unit 'A' ≤ u && u ≤ unit 'Z') = false := by
  have hwritten (g : List Nat) : ∀ u ∈ written g, (unit 'A' ≤ u && u ≤ unit 'Z') = false := by
    induction g with
    | nil => exact fun u hu => absurd hu List.not_mem_nil
    | cons n g ih =>
      have hhex : ∀ u ∈ hexText n, (unit 'A' ≤ u && u ≤ unit 'Z') = false := by
        intro u hu
        obtain ⟨d, hd, rfl⟩ := mem_hexText hu
        exact (hexDigit_plain hd).2.2.2
      cases g with
      | nil => exact hhex
      | cons m g =>
        intro u hu
        rw [written_cons] at hu
        rcases List.mem_append.1 hu with hu | hu
        · rcases List.mem_append.1 hu with hu | hu
          · exact hhex u hu
          · rw [List.mem_singleton.1 hu]
            decide
        · exact ih u hu
  intro u hu
  unfold V6.text at hu
  dsimp only at hu
  split at hu
  · exact hwritten _ u hu
  · rcases List.mem_append.1 hu with hu | hu
    · rcases List.mem_append.1 hu with hu | hu
      · exact hwritten _ u hu
      · have hcolons : (js "::").all (fun u => !(unit 'A' ≤ u && u ≤ unit 'Z')) = true := by decide
        exact (Bool.not_eq_true' _).mp (List.all_eq_true.1 hcolons u hu)
    · exact hwritten _ u hu

theorem internalHost_v6 (x : V6) : internalHost (Host.v6 x).text = x.inward := by
  have hlower : lowerAscii (Host.v6 x).text = js "[" ++ x.text ++ [unit ']'] := by
    refine lowerAscii_plain fun u hu => ?_
    rcases List.mem_append.1 hu with hu | hu
    · rcases List.mem_append.1 hu with hu | hu
      · rw [List.mem_singleton.1 hu]
        decide
      · exact plain_v6 x u hu
    · rw [List.mem_singleton.1 hu]
      decide
  have hbracket : startsWith (js "[") (js "[" ++ x.text ++ [unit ']']) = true := by
    rw [List.append_assoc, startsWith, List.isPrefixOf_iff_prefix]
    exact List.prefix_append _ _
  have hinside : ((js "[" ++ x.text ++ [unit ']']).drop 1).dropLast = x.text := by
    rw [List.append_assoc]
    exact List.dropLast_concat
  unfold internalHost
  dsimp only
  rw [hlower, bare_of_last (by decide), hbracket, if_pos rfl, hinside]
  exact internalV6_eq (groupsOf_text x)

/-! ## Dotted decimal -/

theorem decimal_digits (n : Nat) : (decimalText n).all isDigit = true := by
  refine List.all_eq_true.2 fun u hu => ?_
  obtain ⟨d, hd, rfl⟩ := List.mem_map.1 hu
  exact (hexDigit_digit (Positional.written_lt (by omega) hd)).1

theorem decimal_ne_nil (n : Nat) : decimalText n ≠ [] := by
  rw [decimalText, Ne, List.map_eq_nil_iff]
  exact Positional.written_ne_nil 10 n

theorem numberOf_decimal (n : Nat) : numberOf (decimalText n) = n := by
  have hfold : ∀ (ds : List Nat) (k : Nat), (∀ d ∈ ds, d < 10) →
      (ds.map hexDigit).foldl (fun n u => 10 * n + (u.toNat - 48)) k = ds.foldl (fun n d => 10 * n + d) k := by
    intro ds
    induction ds with
    | nil => exact fun _ _ => rfl
    | cons d ds ih =>
      intro k h
      rw [List.map_cons, List.foldl_cons, List.foldl_cons, (hexDigit_digit (h d List.mem_cons_self)).2,
        ih _ fun e he => h e (List.mem_cons_of_mem _ he)]
  exact (hfold _ 0 fun d hd => Positional.written_lt (by omega) hd).trans (Positional.read_written 10 n)

theorem dot_not_digit : isDigit (unit '.') = false := by decide

theorem dottedQuad_text (x : V4) : dottedQuad (Host.v4 x).text = some x.bytes := by
  have hsplit : splitOn (unit '.') (Host.v4 x).text = x.bytes.map decimalText :=
    Document.splitOn_join (by simp [V4.bytes]) fun l hl => by
      obtain ⟨n, -, rfl⟩ := List.mem_map.1 hl
      intro hdot
      have := List.all_eq_true.1 (decimal_digits n) _ hdot
      rw [dot_not_digit] at this
      cases this
  have hlabels : ((x.bytes.map decimalText).all fun l => !l.isEmpty && l.all isDigit) = true := by
    refine List.all_eq_true.2 fun l hl => ?_
    obtain ⟨n, -, rfl⟩ := List.mem_map.1 hl
    rw [decimal_digits, Bool.and_true, Bool.not_eq_true', List.isEmpty_eq_false_iff]
    exact decimal_ne_nil n
  unfold dottedQuad
  dsimp only
  rw [hsplit, if_pos ⟨rfl, hlabels⟩, List.map_map]
  exact congrArg some ((List.map_congr_left fun n _ => numberOf_decimal n).trans (List.map_id _))

theorem text_v4 (x : V4) : (Host.v4 x).text = decimalText x.a ++ js "." ++ (decimalText x.b ++ js "." ++
    (decimalText x.c ++ js "." ++ decimalText x.d)) := rfl

/-- The text ends with a digit. -/
theorem last_v4 (x : V4) : ∃ s u, (Host.v4 x).text = s ++ [u] ∧ isDigit u = true := by
  obtain ⟨s, u, hs⟩ := List.eq_nil_or_concat (decimalText x.d) |>.resolve_left (decimal_ne_nil x.d)
  have hu := List.all_eq_true.1 (decimal_digits x.d) u (by rw [hs]; simp)
  refine ⟨decimalText x.a ++ js "." ++ (decimalText x.b ++ js "." ++ (decimalText x.c ++ js "." ++ s)), u, ?_, hu⟩
  rw [text_v4, hs, List.concat_eq_append]
  simp only [List.append_assoc]

theorem mem_v4 {x : V4} (h : u ∈ (Host.v4 x).text) : isDigit u = true ∨ u = unit '.' := by
  have hpart (n : Nat) (hu : u ∈ decimalText n) : isDigit u = true := List.all_eq_true.1 (decimal_digits n) u hu
  rw [text_v4] at h
  simp only [List.mem_append] at h
  have hdot (hu : u ∈ js ".") : u = unit '.' := List.mem_singleton.1 hu
  rcases h with (h | h) | ((h | h) | ((h | h) | h))
  · exact .inl (hpart _ h)
  · exact .inr (hdot h)
  · exact .inl (hpart _ h)
  · exact .inr (hdot h)
  · exact .inl (hpart _ h)
  · exact .inr (hdot h)
  · exact .inl (hpart _ h)

/-- No suffix looked for ends with a digit. -/
theorem suffixes_end : ∀ d ∈ RESERVED_SUFFIX ++ RESOLVER_SUFFIX, ((js d).getLast?.any fun v => !isDigit v) = true := by
  decide

theorem getLast_of_suffix {l m : Str} {v : UInt16} (hl : l.getLast? = some v) (h : l <:+ m) : m.getLast? = some v := by
  obtain ⟨rest, rfl⟩ := h
  rw [List.getLast?_append, hl]
  rfl

theorem not_below {s : Str} (hu : isDigit u = true) {d : String} (hd : d ∈ RESERVED_SUFFIX ++ RESOLVER_SUFFIX) :
    (s ++ [u] == js d) = false ∧ below (s ++ [u]) d = false := by
  obtain ⟨v, hv, hend⟩ := Option.any_eq_true _ _ |>.1 (suffixes_end d hd)
  have hne : (s ++ [u]).getLast? ≠ some v := by
    rw [List.getLast?_concat]
    intro h
    rw [← Option.some.inj h, hu] at hend
    cases hend
  constructor
  · rw [beq_eq_false_iff_ne]
    intro h
    exact hne (h ▸ hv)
  · rw [below, endsWith, Bool.eq_false_iff, Ne, List.isSuffixOf_iff_suffix]
    intro h
    have hv' : (unit '.' :: js d).getLast? = some v := by
      rw [List.getLast?_cons, hv]
      rfl
    exact hne (getLast_of_suffix hv' h)

theorem internalHost_v4 (x : V4) : internalHost (Host.v4 x).text = nonPublic x.bytes := by
  obtain ⟨s, u, hs, hu⟩ := last_v4 x
  have hplain : lowerAscii (Host.v4 x).text = (Host.v4 x).text := by
    refine lowerAscii_plain fun v hv => ?_
    rcases mem_v4 hv with hv | rfl
    · simp only [isDigit, Bool.and_eq_true, decide_eq_true_eq] at hv
      rw [Bool.and_eq_false_iff, decide_eq_false_iff_not]
      refine .inl fun hA => ?_
      have : unit 'A' ≤ (0x39 : UInt16) := UInt16.le_trans hA hv.2
      exact absurd this (by decide)
    · decide
  have hbare : bare (Host.v4 x).text = (Host.v4 x).text := by
    rw [hs]
    refine bare_of_last ?_
    rintro rfl
    rw [dot_not_digit] at hu
    cases hu
  have hbracket : startsWith (js "[") (Host.v4 x).text = false := by
    refine not_startsWith (u := unit '[') (by decide) fun h => ?_
    rcases mem_v4 h with h | h
    · exact absurd h (by decide)
    · exact absurd h (by decide)
  have hdot : (Host.v4 x).text.contains (unit '.') = true := by
    rw [List.contains_iff_mem, text_v4]
    exact List.mem_append_left _ (List.mem_append_right _ (List.mem_singleton_self _))
  have hreserved : RESERVED_SUFFIX.any (below (Host.v4 x).text) = false := by
    rw [List.any_eq_false, hs]
    exact fun d hd => Bool.not_eq_true _ ▸ (not_below hu (List.mem_append_left _ hd)).2
  have hresolver : (RESOLVER_SUFFIX.any fun d => (Host.v4 x).text == js d || below (Host.v4 x).text d) = false := by
    rw [List.any_eq_false, hs]
    intro d hd
    obtain ⟨hne, hbelow⟩ := not_below (s := s) hu (List.mem_append_right _ hd)
    rw [hne, hbelow]
    exact Bool.false_ne_true
  unfold internalHost
  dsimp only
  rw [hplain, hbare, hbracket, if_neg Bool.false_ne_true, hdot, Bool.not_true, if_neg Bool.false_ne_true, hreserved,
    if_neg Bool.false_ne_true, hresolver, if_neg Bool.false_ne_true, dottedQuad_text]
  exact internalV4_eq _ _ x.a.2 x.b.2

/-! ## Names -/

section Names

variable {h : Str}

/-- Four labels of digits are the four parts of the name. -/
theorem parts_of_quad {quad : List Nat} (hq : dottedQuad h = some quad) :
    ∃ a b c d, partsOf h = [a, b, c, d] ∧ quad = [numberOf a, numberOf b, numberOf c, numberOf d] := by
  unfold dottedQuad at hq
  dsimp only at hq
  split at hq
  · rename_i hlabels
    obtain ⟨hlength, hall⟩ := hlabels
    obtain ⟨a, b, c, d, habcd⟩ : ∃ a b c d, splitOn (unit '.') h = [a, b, c, d] := by
      match splitOn (unit '.') h, hlength with
      | [a, b, c, d], _ => exact ⟨a, b, c, d, rfl⟩
    have hsingle : ∀ l ∈ [a, b, c, d], splitOn (unit '-') l = [l] := by
      intro l hl
      refine Document.splitOn_single fun hdash => ?_
      rw [habcd] at hall
      have := List.all_eq_true.1 hall l hl
      rw [Bool.and_eq_true] at this
      exact absurd (List.all_eq_true.1 this.2 _ hdash) (by decide)
    cases hq
    refine ⟨a, b, c, d, ?_, by rw [habcd]; rfl⟩
    rw [partsOf, habcd, List.flatMap_cons, List.flatMap_cons, List.flatMap_cons, List.flatMap_cons, List.flatMap_nil,
      hsingle a (by simp), hsingle b (by simp), hsingle c (by simp), hsingle d (by simp)]
    rfl
  · cases hq

/-- A name is refused by its dots and suffixes, by the four numbers it is, or by an inward address where the scan looks. -/
theorem internalHost_name (n : Name) : internalHost n.text = true ↔ named (bare n.text) = true ∨
    (∃ quad, dottedQuad (bare n.text) = some quad ∧ internalV4 quad = true) ∨
      (dottedQuad (bare n.text) = none ∧ Windows.scan isPart inwardQuad (partsOf (bare n.text)) = true) := by
  have hplain : lowerAscii n.text = n.text := lowerAscii_plain fun u hu => (n.plain u hu).2.1
  have hbracket : startsWith (js "[") (bare n.text) = false :=
    not_startsWith (u := unit '[') (by decide) fun hm => (n.plain _ ((List.rdropWhile_prefix _ _).subset hm)).2.2 rfl
  unfold internalHost
  dsimp only
  rw [hplain, hbracket, if_neg Bool.false_ne_true]
  generalize bare n.text = h
  unfold named
  cases hdot : h.contains (unit '.') with
  | false => simp
  | true =>
    cases hreserved : RESERVED_SUFFIX.any (below h) with
    | true => simp
    | false =>
      cases hresolver : RESOLVER_SUFFIX.any fun d => h == js d || below h d with
      | true => simp
      | false =>
        cases hquad : dottedQuad h with
        | none => simp
        | some quad => simp

/-- Four numbers that spell an inward address are inward. -/
theorem quad_inward {quad : List Nat} {before : List Str} (hq : dottedQuad h = some quad)
    (hit : Windows.Hit isPart inwardQuad (partsOf h) before) : before = [] ∧ internalV4 quad = true := by
  obtain ⟨a, b, c, d, hparts, rfl⟩ := parts_of_quad hq
  obtain ⟨p, q, r, s, after, hl, -, hhit⟩ := hit
  rw [hparts] at hl
  cases before with
  | nil =>
    cases hl
    unfold inwardQuad at hhit
    rw [Bool.and_eq_true] at hhit
    exact ⟨rfl, hhit.2⟩
  | cons x before =>
    have hlength := congrArg List.length hl
    simp only [List.length_append, List.length_cons, List.length_nil] at hlength
    omega

end Names

/-- Every address is judged rightly; a name is refused wherever it should be exactly if an inward address it spells stands
where the scan looks. -/
theorem inward_hosts (h : Host) : Covered h ↔ Seen h := by
  cases h with
  | v4 x => exact iff_of_true (by rw [Covered, internalHost_v4]) trivial
  | v6 x => exact iff_of_true ⟨groupsOf_text x, by rw [internalHost_v6]⟩ trivial
  | name n =>
    have hhost := internalHost_name n
    dsimp only [Covered, Seen]
    generalize bare n.text = h at hhost ⊢
    constructor
    · intro hcovered hspells
      rcases hhost.1 (hcovered (.inr hspells)) with hnamed | ⟨quad, hquad, -⟩ | ⟨-, hscan⟩
      · exact .inl hnamed
      · obtain ⟨before, hit⟩ := hspells
        obtain ⟨rfl, -⟩ := quad_inward hquad hit
        exact .inr ⟨[], hit, rfl⟩
      · exact .inr (Windows.scan_iff.1 hscan)
    · rintro hseen (hnamed | hspells)
      · exact hhost.2 (.inl hnamed)
      · rcases hseen hspells with hnamed | ⟨before, hit, hrun⟩
        · exact hhost.2 (.inl hnamed)
        · cases hquad : dottedQuad h with
          | some quad => exact hhost.2 (.inr (.inl ⟨quad, hquad, (quad_inward hquad hit).2⟩))
          | none => exact hhost.2 (.inr (.inr ⟨hquad, Windows.scan_iff.2 ⟨before, hit, hrun⟩⟩))

/-- A name in which a one stands before the inward address. -/
def shifted : Name where
  text := js "1.10.0.0.1.example.com"
  plain := by
    have hplain : (js "1.10.0.0.1.example.com").all
        (fun u => decide (u < 128) && !(unit 'A' ≤ u && u ≤ unit 'Z') && u != unit '[') = true := by decide
    intro u hu
    have hunit := List.all_eq_true.1 hplain u hu
    rw [Bool.and_eq_true, Bool.and_eq_true, Bool.not_eq_true', bne_iff_ne, decide_eq_true_eq] at hunit
    exact ⟨hunit.1.1, hunit.1.2, hunit.2⟩

/-- The scan takes the first four numbers of the name and not the last four, which spell an inward address. -/
theorem shifted_passes : ¬Covered (.name shifted) := by
  intro hcovered
  have hspells : Spells (bare shifted.text) :=
    ⟨[js "1"], js "10", js "0", js "0", js "1", [js "example", js "com"], by decide, by decide, by decide⟩
  have hpasses : internalHost shifted.text = false := by decide
  exact absurd (hcovered (.inr hspells)) (by rw [hpasses]; exact Bool.false_ne_true)

end Antiproton.Plugins.Hosts
