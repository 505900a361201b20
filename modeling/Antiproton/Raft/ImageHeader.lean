import Mathlib.Algebra.Group.Int.Defs
import Mathlib.Algebra.Ring.Nat
import Mathlib.Data.List.Basic

/-!
# Antiproton.Raft.ImageHeader

The type and dimensions of an image, read from its first bytes (`imageHeader`, `src/plugins/raft.ts`). A read past the
end of the array is `none`, JavaScript's `undefined`. A walk is given fuel, and `none` where it would not end.
-/

namespace Antiproton.Raft

/-- `b[i]` of a typed array, with whatever stands past its end. -/
abbrev Reads := Nat → Option UInt8

inductive MimeType where
  | png
  | jpeg
  | webp
  | gif
deriving DecidableEq

inductive ImageHeader where
  | ok (mimeType : MimeType) (width height : Nat)
  | refused (what : String)
deriving DecidableEq

section Reading

variable (n : Nat) (b : Reads)

/-- A byte in bit arithmetic, where `undefined` is 0. -/
def byte (i : Nat) : Nat := ((b i).map (·.toNat)).getD 0

/-- `at`. -/
def at_ (i : Nat) (s : List UInt8) : Bool := decide (i + s.length ≤ n) && s.zipIdx.all fun c => b (i + c.2) == some c.1

def be16 (i : Nat) : Nat := byte b i <<< 8 ||| byte b (i + 1)

def le16 (i : Nat) : Nat := byte b i ||| byte b (i + 1) <<< 8

def le24 (i : Nat) : Nat := byte b i ||| byte b (i + 1) <<< 8 ||| byte b (i + 2) <<< 16

/-- `b[i]! * 2 ** 24 + (b[i + 1]! << 16 | b[i + 2]! << 8 | b[i + 3]!)`: the product is `NaN` where `b[i]` is not there. -/
def be32 (i : Nat) : Option Nat :=
  (b i).map fun x => x.toNat * 2 ^ 24 + (byte b (i + 1) <<< 16 ||| byte b (i + 2) <<< 8 ||| byte b (i + 3))

def sized (mimeType : MimeType) (width height : Nat) (name : String) : ImageHeader :=
  if 0 < width ∧ 0 < height then .ok mimeType width height else .refused (name ++ " whose header gives no dimensions")

def ascii (s : String) : List UInt8 := s.toList.map fun c => c.toNat.toUInt8

/-! ## PNG -/

def pngSignature : List UInt8 := [0x89] ++ ascii "PNG\r\n" ++ [0x1a] ++ ascii "\n"

/-- Chunks to the image data, from one at `i`. -/
def pngWalk (still : ImageHeader) : Nat → Nat → Option ImageHeader
  | 0, _ => none
  | fuel + 1, i =>
    if n < i + 8 then some (.refused "a PNG cut short before its image data, so whether it is animated cannot be told")
    else if at_ n b (i + 4) (ascii "acTL") then some (.refused "an animated PNG")
    else if at_ n b (i + 4) (ascii "IDAT") || at_ n b (i + 4) (ascii "IEND") then some still
    else
      -- From `NaN` on no test of the walk holds, and it goes round for ever.
      match be32 b i with
      | none => none
      | some length => pngWalk still fuel (i + (12 + length))

/-- `NaN` is no dimension, as 0 is none. -/
def pngHeader (fuel : Nat) : Option ImageHeader :=
  if n < 24 || !at_ n b 12 (ascii "IHDR") then some (.refused "a PNG whose header is cut short or malformed")
  else pngWalk n b (sized .png ((be32 b 16).getD 0) ((be32 b 20).getD 0) "a PNG") fuel 8

/-! ## JPEG -/

/-- `TEM` and `RST0`–`7` stand alone, with no length after them. -/
def standsAlone (m : Nat) : Bool := m == 0x01 || (0xd0 ≤ m && m ≤ 0xd7)

/-- The first `SOFn`, `C0`–`CF` but for `DHT`, `JPG` and `DAC`. -/
def startsFrame (m : Nat) : Bool := 0xc0 ≤ m && m ≤ 0xcf && m != 0xc4 && m != 0xc8 && m != 0xcc

def noFrame : ImageHeader :=
  .refused "a JPEG whose frame header (its dimensions) could not be found: cut short or malformed"

/-- Segments to the frame header, from one at `i`. -/
def jpegWalk : Nat → Nat → Option ImageHeader
  | 0, _ => none
  | fuel + 1, i =>
    if i + 1 < n then
      if b i ≠ some 0xff then some noFrame
      else
        let m := byte b (i + 1)
        if m = 0xff then jpegWalk fuel (i + 1)
        else if m = 0xd9 ∨ m = 0xda then some noFrame
        else if standsAlone m then jpegWalk fuel (i + 2)
        else
          let length := be16 b (i + 2)
          if startsFrame m then
            if n ≤ i + 8 ∨ length < 7 then some noFrame
            else some (sized .jpeg (be16 b (i + 7)) (be16 b (i + 5)) "a JPEG")
          else jpegWalk fuel (i + (2 + length))
    else some noFrame

/-! ## WebP -/

def webpHeader : ImageHeader :=
  if at_ n b 12 (ascii "VP8 ") then
    if n < 30 || !(b 23 == some 0x9d && b 24 == some 0x01 && b 25 == some 0x2a) then
      .refused "a WebP whose header is cut short or malformed"
    else sized .webp (le16 b 26 &&& 0x3fff) (le16 b 28 &&& 0x3fff) "a WebP"
  else if at_ n b 12 (ascii "VP8L") then
    if n < 25 || b 20 != some 0x2f then .refused "a WebP whose header is cut short or malformed"
    else
      -- `|` takes its operands as signed numbers of 32 bits, so the quotient may be negative.
      let bits := BitVec.ofNat 32 (byte b 21) ||| BitVec.ofNat 32 (byte b 22) <<< 8 |||
        BitVec.ofNat 32 (byte b 23) <<< 16 ||| BitVec.ofNat 32 (byte b 24 * 2 ^ 24)
      sized .webp ((bits &&& 0x3fff).toNat + 1) ((BitVec.ofInt 32 (bits.toInt / 2 ^ 14) &&& 0x3fff).toNat + 1) "a WebP"
  else if at_ n b 12 (ascii "VP8X") then
    if n < 30 then .refused "a WebP whose header is cut short or malformed"
    else if byte b 20 &&& 0x02 ≠ 0 then .refused "an animated WebP"
    else sized .webp (le24 b 24 + 1) (le24 b 27 + 1) "a WebP"
  else .refused "a WebP of a kind whose header is not read here"

/-! ## GIF -/

/-- What a packed byte says of a colour table: how many bytes it takes. -/
def tableBytes (packed : Nat) : Nat := if packed &&& 0x80 ≠ 0 then 3 * 2 ^ ((packed &&& 7) + 1) else 0

def subBlocks : Nat → Nat → Option Nat
  | 0, _ => none
  | fuel + 1, i => if i < n ∧ b i ≠ some 0 then subBlocks fuel (i + (byte b i + 1)) else some (i + 1)

/-- Every block to the trailer, from one at `i`, counting image descriptors. -/
def gifWalk (width height : Nat) : Nat → Nat → Nat → Option ImageHeader
  | 0, _, _ => none
  | fuel + 1, i, frames =>
    if n ≤ i then some (.refused "a GIF cut short before its end, so whether it is animated cannot be told")
    else if b i = some 0x3b then
      if frames = 0 then some (.refused "a GIF with no image in it") else some (sized .gif width height "a GIF")
    else if b i = some 0x2c then
      if 1 < frames + 1 then some (.refused "an animated GIF")
      else (subBlocks n b (n + 1) (i + (10 + tableBytes (byte b (i + 9)) + 1))).bind fun i =>
        gifWalk width height fuel i (frames + 1)
    else if b i = some 0x21 then
      (subBlocks n b (n + 1) (i + 2)).bind fun i => gifWalk width height fuel i frames
    else some (.refused "a GIF whose blocks are malformed")

def gifHeader (fuel : Nat) : Option ImageHeader :=
  gifWalk n b (le16 b 6) (le16 b 8) fuel (13 + tableBytes (byte b 10)) 0

/-! ## What else the bytes may be -/

/-- `/<svg[\s>]/i` on the text of the bytes. `<svg` is four bytes of its own, and what is no ASCII white space is two or
three after it. -/
def svgAt (head : List UInt8) : Bool :=
  match head with
  | lt :: s :: v :: g :: rest =>
    lt == 0x3c && (s == 0x73 || s == 0x53) && (v == 0x76 || v == 0x56) && (g == 0x67 || g == 0x47) &&
      match rest with
      | 0xc2 :: 0xa0 :: _ | 0xe1 :: 0x9a :: 0x80 :: _ | 0xe2 :: 0x80 :: 0xa8 :: _ | 0xe2 :: 0x80 :: 0xa9 :: _
      | 0xe2 :: 0x80 :: 0xaf :: _ | 0xe2 :: 0x81 :: 0x9f :: _ | 0xe3 :: 0x80 :: 0x80 :: _ | 0xef :: 0xbb :: 0xbf :: _ => true
      | 0xe2 :: 0x80 :: c :: _ => 0x80 ≤ c && c ≤ 0x8a
      | c :: _ => c == 0x3e || c == 0x20 || (0x09 ≤ c && c ≤ 0x0d)
      | [] => false
  | _ => false

/-- `b.subarray(from, to)`. -/
def subarray (first last : Nat) : List UInt8 := (List.range' first (min last n - first)).filterMap b

def otherwise : String :=
  if at_ n b 0 (ascii "%PDF-") then "a PDF document"
  else if at_ n b 0 (ascii "BM") then "a BMP image"
  else if at_ n b 0 (ascii "II*" ++ [0]) || at_ n b 0 (ascii "MM" ++ [0] ++ ascii "*") then "a TIFF image"
  else if at_ n b 0 [0, 0, 1, 0] then "an ICO icon"
  else if at_ n b 4 (ascii "ftyp") then
    let brand := subarray n b 8 12
    if [ascii "avif", ascii "avis"].contains brand then "an AVIF image"
    else if [ascii "heic", ascii "heix", ascii "hevc", ascii "hevx", ascii "mif1", ascii "msf1"].contains brand then
      "a HEIC image"
    else "a video or other ISO media file"
  else if at_ n b 0 (ascii "PK" ++ [3, 4]) then "a ZIP archive (or a document built on one, such as .docx)"
  else if (subarray n b 0 1024).tails.any svgAt then "an SVG image"
  else "a file of a type this tool does not recognise"

def header (fuel : Nat) : Option ImageHeader :=
  if at_ n b 0 pngSignature then pngHeader n b fuel
  else if 3 ≤ n ∧ b 0 = some 0xff ∧ b 1 = some 0xd8 ∧ b 2 = some 0xff then jpegWalk n b fuel 2
  else if at_ n b 0 (ascii "RIFF") && at_ n b 8 (ascii "WEBP") then some (webpHeader n b)
  else if at_ n b 0 (ascii "GIF87a") || at_ n b 0 (ascii "GIF89a") then gifHeader n b fuel
  else some (.refused (otherwise n b))

end Reading

/-- The reads of a byte array: `undefined` past its end. -/
def readsOf (bytes : List UInt8) : Reads := fun i => bytes[i]?

/-- Every walk has one step of fuel for each byte, and one more. -/
def imageHeader (bytes : List UInt8) : Option ImageHeader := header bytes.length (readsOf bytes) (bytes.length + 1)

/-! ## Every walk ends -/

section Ends

variable {n : Nat} {b : Reads} {fuel i : Nat}

theorem pngWalk_ends (hb : ∀ i < n, (b i).isSome) (still : ImageHeader) (hfuel : 0 < fuel) (hi : n < i + fuel) :
    (pngWalk n b still fuel i).isSome := by
  induction fuel generalizing i with
  | zero => exact absurd hfuel (Nat.lt_irrefl 0)
  | succ fuel ih =>
    rw [pngWalk]
    split
    · rfl
    · split
      · rfl
      · split
        · rfl
        · obtain ⟨x, hx⟩ := Option.isSome_iff_exists.1 (hb i (by omega))
          rw [be32, hx]
          exact ih (by omega) (by omega)

theorem jpegWalk_ends (hfuel : 0 < fuel) (hi : n < i + fuel) : (jpegWalk n b fuel i).isSome := by
  induction fuel generalizing i with
  | zero => exact absurd hfuel (Nat.lt_irrefl 0)
  | succ fuel ih =>
    rw [jpegWalk]
    split
    · split
      · rfl
      · dsimp only
        split
        · exact ih (by omega) (by omega)
        · split
          · rfl
          · split
            · exact ih (by omega) (by omega)
            · split
              · split <;> rfl
              · exact ih (by omega) (by omega)
    · rfl

theorem subBlocks_ends (hfuel : 0 < fuel) (hi : n < i + fuel) : ∃ j, subBlocks n b fuel i = some j ∧ i < j := by
  induction fuel generalizing i with
  | zero => exact absurd hfuel (Nat.lt_irrefl 0)
  | succ fuel ih =>
    rw [subBlocks]
    split
    · obtain ⟨j, hj, hlt⟩ := ih (i := i + (byte b i + 1)) (by omega) (by omega)
      exact ⟨j, hj, by omega⟩
    · exact ⟨i + 1, rfl, Nat.lt_succ_self i⟩

theorem gifWalk_ends {frames : Nat} (width height : Nat) (hfuel : 0 < fuel) (hi : n < i + fuel) :
    (gifWalk n b width height fuel i frames).isSome := by
  induction fuel generalizing i frames with
  | zero => exact absurd hfuel (Nat.lt_irrefl 0)
  | succ fuel ih =>
    rw [gifWalk]
    split
    · rfl
    · split
      · split <;> rfl
      · split
        · split
          · rfl
          · obtain ⟨j, hj, hlt⟩ : ∃ j, subBlocks n b (n + 1) (i + (10 + tableBytes (byte b (i + 9)) + 1)) = some j ∧
                i + (10 + tableBytes (byte b (i + 9)) + 1) < j := subBlocks_ends (by omega) (by omega)
            rw [hj]
            exact ih (by omega) (by omega)
        · split
          · obtain ⟨j, hj, hlt⟩ : ∃ j, subBlocks n b (n + 1) (i + 2) = some j ∧ i + 2 < j :=
              subBlocks_ends (by omega) (by omega)
            rw [hj]
            exact ih (by omega) (by omega)
          · rfl

theorem header_ends (hb : ∀ i < n, (b i).isSome) (hfuel : n < fuel) : (header n b fuel).isSome := by
  unfold header
  split
  · unfold pngHeader
    split
    · rfl
    · exact pngWalk_ends hb _ (by omega) (by omega)
  · split
    · exact jpegWalk_ends (by omega) (by omega)
    · split
      · rfl
      · split
        · exact gifWalk_ends _ _ (by omega) (by omega)
        · rfl

end Ends

/-! ## What an accepting answer was read from -/

section Within

variable {n : Nat} {b b' : Reads} {fuel i : Nat}

/-- The same bytes before the end. -/
def Agree (n : Nat) (b b' : Reads) : Prop := ∀ i < n, b i = b' i

theorem Agree.byte (h : Agree n b b') (hi : i < n) : byte b i = byte b' i := by
  unfold Raft.byte
  rw [h i hi]

theorem Agree.be16 (h : Agree n b b') (hi : i + 1 < n) : be16 b i = be16 b' i := by
  unfold Raft.be16
  rw [h.byte (i := i) (by omega), h.byte hi]

theorem Agree.le16 (h : Agree n b b') (hi : i + 1 < n) : le16 b i = le16 b' i := by
  unfold Raft.le16
  rw [h.byte (i := i) (by omega), h.byte hi]

theorem Agree.le24 (h : Agree n b b') (hi : i + 2 < n) : le24 b i = le24 b' i := by
  unfold Raft.le24
  rw [h.byte (i := i) (by omega), h.byte (i := i + 1) (by omega), h.byte hi]

theorem Agree.be32 (h : Agree n b b') (hi : i + 3 < n) : be32 b i = be32 b' i := by
  unfold Raft.be32
  rw [h i (by omega), h.byte (i := i + 1) (by omega), h.byte (i := i + 2) (by omega), h.byte hi]

/-- A signature is looked for before the end only. -/
theorem Agree.at_ (h : Agree n b b') (i : Nat) (s : List UInt8) : at_ n b i s = at_ n b' i s := by
  unfold Raft.at_
  by_cases hend : i + s.length ≤ n
  · refine congrArg _ (Bool.eq_iff_iff.2 ?_)
    rw [List.all_eq_true, List.all_eq_true]
    refine forall₂_congr fun c hc => ?_
    have hlt := (List.mem_zipIdx hc).2.1
    rw [h (i + c.2) (by omega)]
  · simp [hend]

theorem Agree.pngWalk (h : Agree n b b') (still : ImageHeader) (fuel i : Nat) :
    pngWalk n b still fuel i = pngWalk n b' still fuel i := by
  induction fuel generalizing i with
  | zero => rfl
  | succ fuel ih =>
    rw [Raft.pngWalk, Raft.pngWalk, h.at_, h.at_, h.at_]
    split
    · rfl
    · rw [h.be32 (by omega)]
      simp only [ih]

theorem Agree.pngHeader (h : Agree n b b') (fuel : Nat) : pngHeader n b fuel = pngHeader n b' fuel := by
  unfold Raft.pngHeader
  rw [h.at_]
  split
  · rfl
  · rename_i hlong
    have hlong : 24 ≤ n := by simp at hlong; omega
    rw [h.be32 (i := 16) (by omega), h.be32 (i := 20) (by omega), h.pngWalk]

theorem Agree.webpHeader (h : Agree n b b') : webpHeader n b = webpHeader n b' := by
  unfold Raft.webpHeader
  rw [h.at_, h.at_, h.at_]
  split
  · by_cases hshort : n < 30
    · simp [hshort]
    · rw [h 23 (by omega), h 24 (by omega), h 25 (by omega), h.le16 (i := 26) (by omega), h.le16 (i := 28) (by omega)]
  · split
    · by_cases hshort : n < 25
      · simp [hshort]
      · rw [h 20 (by omega), h.byte (i := 21) (by omega), h.byte (i := 22) (by omega), h.byte (i := 23) (by omega),
          h.byte (i := 24) (by omega)]
    · split
      · split
        · rfl
        · rw [h.byte (i := 20) (by omega), h.le24 (i := 24) (by omega), h.le24 (i := 27) (by omega)]
      · rfl

/-- An answer that accepts. -/
def ImageHeader.Accepts (answer : ImageHeader) : Prop := ∃ mimeType width height, answer = .ok mimeType width height

theorem not_accepts_refused (what : String) : ¬(ImageHeader.refused what).Accepts := by
  rintro ⟨_, _, _, h⟩
  cases h

/-- A segment whose length stands past the end leads past the end. -/
theorem Agree.jpegWalk (h : Agree n b b') {answer : ImageHeader} (hok : jpegWalk n b fuel i = some answer)
    (haccepts : answer.Accepts) : Raft.jpegWalk n b' fuel i = some answer := by
  have hnot : ∀ {x : Option ImageHeader}, x = some noFrame → x ≠ some answer := by
    rintro x rfl hanswer
    cases hanswer
    exact not_accepts_refused _ haccepts
  induction fuel generalizing i with
  | zero => cases hok
  | succ fuel ih =>
    rw [Raft.jpegWalk] at hok ⊢
    split at hok
    · rename_i hlong
      rw [if_pos hlong, ← h i (by omega), ← h.byte hlong]
      split at hok
      · exact absurd hok (hnot rfl)
      · rename_i hmarker
        rw [if_neg hmarker]
        dsimp only at hok ⊢
        split at hok
        · rename_i hfill
          rw [if_pos hfill]
          exact ih hok
        · rename_i hfill
          rw [if_neg hfill]
          split at hok
          · exact absurd hok (hnot rfl)
          · rename_i hend
            rw [if_neg hend]
            split at hok
            · rename_i halone
              rw [if_pos halone]
              exact ih hok
            · rename_i halone
              rw [if_neg halone]
              split at hok
              · rename_i hframe
                rw [if_pos hframe]
                split at hok
                · exact absurd hok (hnot rfl)
                · rename_i hthere
                  rw [not_or, Nat.not_le, Nat.not_lt] at hthere
                  rw [← h.be16 (i := i + 2) (by omega), if_neg (by omega), ← h.be16 (i := i + 7) (by omega),
                    ← h.be16 (i := i + 5) (by omega)]
                  exact hok
              · rename_i hframe
                rw [if_neg hframe]
                by_cases hthere : i + 3 < n
                · rw [← h.be16 (i := i + 2) (by omega)]
                  exact ih hok
                · cases fuel with
                  | zero => cases hok
                  | succ fuel =>
                    rw [Raft.jpegWalk, if_neg (by omega)] at hok
                    exact absurd hok (hnot rfl)
    · exact absurd hok (hnot rfl)

theorem Agree.subBlocks (h : Agree n b b') (fuel i : Nat) : subBlocks n b fuel i = Raft.subBlocks n b' fuel i := by
  induction fuel generalizing i with
  | zero => rfl
  | succ fuel ih =>
    rw [Raft.subBlocks, Raft.subBlocks]
    by_cases hi : i < n
    · rw [h i hi, h.byte hi]
      simp only [ih]
    · simp [hi]

theorem Agree.gifWalk (h : Agree n b b') {width height frames : Nat} {answer : ImageHeader}
    (hok : gifWalk n b width height fuel i frames = some answer) (haccepts : answer.Accepts) :
    Raft.gifWalk n b' width height fuel i frames = some answer ∧ i < n := by
  have hnot : ∀ what, some (ImageHeader.refused what) ≠ some answer := by
    rintro what hanswer
    cases hanswer
    exact not_accepts_refused _ haccepts
  induction fuel generalizing i frames with
  | zero => cases hok
  | succ fuel ih =>
    rw [Raft.gifWalk] at hok ⊢
    split at hok
    · exact absurd hok (hnot _)
    · rename_i hi
      rw [if_neg hi, ← h i (by omega)]
      refine ⟨?_, by omega⟩
      split at hok
      · rename_i htrailer
        rw [if_pos htrailer]
        exact hok
      · rename_i htrailer
        rw [if_neg htrailer]
        split at hok
        · rename_i himage
          rw [if_pos himage]
          split at hok
          · exact absurd hok (hnot _)
          · rename_i hframes
            rw [if_neg hframes, ← h.subBlocks]
            obtain ⟨j, hj, hrest⟩ := Option.bind_eq_some_iff.1 hok
            obtain ⟨hsame, hwithin⟩ := ih hrest
            -- The walk went on from past the descriptor, so the descriptor is within.
            obtain ⟨j', hj', hpast⟩ : ∃ j', Raft.subBlocks n b (n + 1) (i + (10 + tableBytes (Raft.byte b (i + 9)) + 1)) =
                some j' ∧ i + (10 + tableBytes (Raft.byte b (i + 9)) + 1) < j' := subBlocks_ends (by omega) (by omega)
            rw [hj] at hj'
            cases hj'
            rw [← h.byte (i := i + 9) (by omega), hj]
            exact hsame
        · rename_i himage
          rw [if_neg himage]
          split at hok
          · rename_i hextension
            rw [if_pos hextension, ← h.subBlocks]
            obtain ⟨j, hj, hrest⟩ := Option.bind_eq_some_iff.1 hok
            rw [hj]
            exact (ih hrest).1
          · exact absurd hok (hnot _)

/-- What an accepting answer says does not depend on what stands past the end. -/
theorem Agree.header (h : Agree n b b') {answer : ImageHeader} (hok : header n b fuel = some answer)
    (haccepts : answer.Accepts) : Raft.header n b' fuel = some answer := by
  unfold Raft.header at hok ⊢
  rw [← h.at_, ← h.at_, ← h.at_, ← h.at_, ← h.at_]
  split at hok
  · rename_i hpng
    rw [if_pos hpng, ← h.pngHeader]
    exact hok
  · rename_i hpng
    rw [if_neg hpng]
    have hjpeg : (3 ≤ n ∧ b' 0 = some 0xff ∧ b' 1 = some 0xd8 ∧ b' 2 = some 0xff) ↔
        (3 ≤ n ∧ b 0 = some 0xff ∧ b 1 = some 0xd8 ∧ b 2 = some 0xff) :=
      and_congr_right fun hlong => by rw [h 0 (by omega), h 1 (by omega), h 2 (by omega)]
    rw [if_congr hjpeg rfl rfl]
    split at hok
    · rename_i hsoi
      rw [if_pos hsoi]
      exact h.jpegWalk hok haccepts
    · rename_i hsoi
      rw [if_neg hsoi]
      split at hok
      · rename_i hwebp
        rw [if_pos hwebp, ← h.webpHeader]
        exact hok
      · rename_i hwebp
        rw [if_neg hwebp]
        split at hok
        · rename_i hgif
          rw [if_pos hgif]
          unfold gifHeader at hok ⊢
          obtain ⟨hsame, hwithin⟩ := h.gifWalk hok haccepts
          rw [← h.le16 (i := 6) (by omega), ← h.le16 (i := 8) (by omega), ← h.byte (i := 10) (by omega)]
          exact hsame
        · cases hok
          exact absurd haccepts (not_accepts_refused _)

end Within

/-! ## The dimensions of an accepting answer -/

section Dimensions

variable {n : Nat} {b : Reads} {fuel i : Nat}

/-- Dimensions are given, if at all, by positive numbers. -/
def ImageHeader.Dimensioned : ImageHeader → Prop
  | .ok _ width height => 0 < width ∧ 0 < height
  | .refused _ => True

theorem sized_dimensioned (mimeType : MimeType) (width height : Nat) (name : String) :
    (sized mimeType width height name).Dimensioned := by
  unfold sized
  split
  · assumption
  · trivial

theorem pngWalk_dimensioned {still answer : ImageHeader} (hstill : still.Dimensioned)
    (h : pngWalk n b still fuel i = some answer) : answer.Dimensioned := by
  induction fuel generalizing i with
  | zero => cases h
  | succ fuel ih =>
    rw [pngWalk] at h
    split at h
    · cases h; trivial
    · split at h
      · cases h; trivial
      · split at h
        · cases h; exact hstill
        · split at h
          · cases h
          · exact ih h

theorem jpegWalk_dimensioned {answer : ImageHeader} (h : jpegWalk n b fuel i = some answer) : answer.Dimensioned := by
  induction fuel generalizing i with
  | zero => cases h
  | succ fuel ih =>
    rw [jpegWalk] at h
    split at h
    · split at h
      · cases h; trivial
      · dsimp only at h
        split at h
        · exact ih h
        · split at h
          · cases h; trivial
          · split at h
            · exact ih h
            · split at h
              · split at h
                · cases h; trivial
                · cases h; exact sized_dimensioned ..
              · exact ih h
    · cases h; trivial

theorem webpHeader_dimensioned : (webpHeader n b).Dimensioned := by
  unfold webpHeader
  split
  · split
    · trivial
    · exact sized_dimensioned ..
  · split
    · split
      · trivial
      · exact sized_dimensioned ..
    · split
      · split
        · trivial
        · split
          · trivial
          · exact sized_dimensioned ..
      · trivial

theorem gifWalk_dimensioned {width height frames : Nat} {answer : ImageHeader}
    (h : gifWalk n b width height fuel i frames = some answer) : answer.Dimensioned := by
  induction fuel generalizing i frames with
  | zero => cases h
  | succ fuel ih =>
    rw [gifWalk] at h
    split at h
    · cases h; trivial
    · split at h
      · split at h
        · cases h; trivial
        · cases h; exact sized_dimensioned ..
      · split at h
        · split at h
          · cases h; trivial
          · obtain ⟨j, -, hrest⟩ := Option.bind_eq_some_iff.1 h
            exact ih hrest
        · split at h
          · obtain ⟨j, -, hrest⟩ := Option.bind_eq_some_iff.1 h
            exact ih hrest
          · cases h; trivial

theorem header_dimensioned {answer : ImageHeader} (h : header n b fuel = some answer) : answer.Dimensioned := by
  unfold header at h
  split at h
  · unfold pngHeader at h
    split at h
    · cases h; trivial
    · exact pngWalk_dimensioned (sized_dimensioned ..) h
  · split at h
    · exact jpegWalk_dimensioned h
    · split at h
      · cases h; exact webpHeader_dimensioned
      · split at h
        · exact gifWalk_dimensioned h
        · cases h; trivial

end Dimensions

end Antiproton.Raft
