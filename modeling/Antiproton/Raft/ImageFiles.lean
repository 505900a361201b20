import Mathlib.Data.List.Infix
import Antiproton.Raft.ImageHeader

/-!
# Antiproton.Raft.ImageFiles

Files that are well formed by the block structure of their format, and what `imageHeader` reads of each.

* `Png.read`, `Jpeg.read`, `Webp.read`, `Gif.read`: the answer for every file of the format.
* `image_header`: `imageHeader` ends on every byte array, accepts by what stands in it, and reads every such file.
-/

namespace Antiproton.Raft

/-! ## Reading a list of bytes -/

section Lists

variable {l rest s t : List UInt8} {i k : Nat}

theorem readsOf_add (l : List UInt8) (i k : Nat) : readsOf l (i + k) = (l.drop i)[k]? := List.getElem?_drop.symm

/-- A read where the bytes from another place on are known. -/
theorem reads_of_drop {x : UInt8} (pre : List UInt8) (h : l.drop i = pre ++ x :: rest) :
    readsOf l (i + pre.length) = some x := by
  rw [readsOf_add, h, List.getElem?_append_right (Nat.le_refl _), Nat.sub_self]
  rfl

theorem byte_of_drop {x : UInt8} (pre : List UInt8) (h : l.drop i = pre ++ x :: rest) :
    byte (readsOf l) (i + pre.length) = x.toNat := by
  rw [byte, reads_of_drop pre h]
  rfl

theorem at_iff : at_ l.length (readsOf l) i s = true ↔ i + s.length ≤ l.length ∧ s <+: l.drop i := by
  rw [at_, Bool.and_eq_true, decide_eq_true_eq, List.all_eq_true, List.prefix_iff_getElem?]
  refine and_congr_right fun _ => ⟨fun h k hk => ?_, fun h c hc => ?_⟩
  · have hmem : (s[k], k) ∈ s.zipIdx := List.mem_zipIdx_iff_getElem?.2 (List.getElem?_eq_getElem hk)
    have heq := h _ hmem
    rwa [beq_iff_eq, readsOf_add] at heq
  · have hget := List.mem_zipIdx_iff_getElem?.1 hc
    obtain ⟨hk, hval⟩ := List.getElem?_eq_some_iff.1 hget
    rw [beq_iff_eq, readsOf_add, h c.2 hk, hval]

/-- A signature is found where it stands. -/
theorem at_of_drop (h : l.drop i = s ++ rest) (hs : s ≠ []) : at_ l.length (readsOf l) i s = true := by
  have hlength : l.length - i = s.length + rest.length := by rw [← List.length_drop, h, List.length_append]
  have hpos := List.length_pos_of_ne_nil hs
  exact at_iff.2 ⟨by omega, h ▸ List.prefix_append s rest⟩

/-- Another of its length is not. -/
theorem at_of_ne (h : l.drop i = t ++ rest) (hlen : s.length = t.length) (hne : s ≠ t) :
    at_ l.length (readsOf l) i s = false := by
  refine Bool.eq_false_iff.2 fun hat => hne ?_
  obtain ⟨-, u, hu⟩ := at_iff.1 hat
  exact (List.append_inj (hu.trans h) hlen).1

/-- Nor is one that begins with another byte. -/
theorem at_of_head {x y : UInt8} (hx : readsOf l i = some x) (hs : s.head? = some y) (hne : x ≠ y) :
    at_ l.length (readsOf l) i s = false := by
  refine Bool.eq_false_iff.2 fun hat => hne ?_
  obtain ⟨-, u, hu⟩ := at_iff.1 hat
  cases s with
  | nil => cases hs
  | cons z s =>
    cases hs
    exact Option.some.inj (hx.symm.trans (reads_of_drop [] hu.symm))

theorem drop_add (h : l.drop i = s ++ rest) : l.drop (i + s.length) = rest := by
  rw [← List.drop_drop, h, List.drop_left]

theorem length_le_flatMap {A : Type} {f : A → List UInt8} (hf : ∀ a, 0 < (f a).length) (as : List A) :
    as.length ≤ (as.flatMap f).length := by
  induction as with
  | nil => exact Nat.zero_le _
  | cons a as ih =>
    have ha := hf a
    rw [List.flatMap_cons, List.length_append, List.length_cons]
    omega

theorem lt_of_drop {x : UInt8} (h : l.drop i = x :: rest) : i < l.length := by
  by_contra hle
  rw [List.drop_eq_nil_of_le (Nat.le_of_not_lt hle)] at h
  cases h

end Lists

/-! ## Numbers in bytes -/

section Numbers

variable {l rest : List UInt8} {i v : Nat}

def be2 (v : Nat) : List UInt8 := [UInt8.ofNat (v / 2 ^ 8), UInt8.ofNat v]

def be4 (v : Nat) : List UInt8 :=
  [UInt8.ofNat (v / 2 ^ 24), UInt8.ofNat (v / 2 ^ 16), UInt8.ofNat (v / 2 ^ 8), UInt8.ofNat v]

def le2 (v : Nat) : List UInt8 := [UInt8.ofNat v, UInt8.ofNat (v / 2 ^ 8)]

def le4 (v : Nat) : List UInt8 :=
  [UInt8.ofNat v, UInt8.ofNat (v / 2 ^ 8), UInt8.ofNat (v / 2 ^ 16), UInt8.ofNat (v / 2 ^ 24)]

def le3 (v : Nat) : List UInt8 := [UInt8.ofNat v, UInt8.ofNat (v / 2 ^ 8), UInt8.ofNat (v / 2 ^ 16)]

theorem or_shift {low k : Nat} (high : Nat) (h : low < 2 ^ k) : high <<< k ||| low = high * 2 ^ k + low := by
  rw [← Nat.shiftLeft_add_eq_or_of_lt h, Nat.shiftLeft_eq]

theorem toNat_ofNat (v : Nat) : (UInt8.ofNat v).toNat = v % 2 ^ 8 := UInt8.toNat_ofNat'

theorem read_be2 (h : l.drop i = be2 v ++ rest) (hv : v < 2 ^ 16) : be16 (readsOf l) i = v := by
  have hhigh : byte (readsOf l) i = (UInt8.ofNat (v / 2 ^ 8)).toNat := byte_of_drop [] h
  have hlow : byte (readsOf l) (i + 1) = (UInt8.ofNat v).toNat := byte_of_drop [_] h
  rw [be16, hhigh, hlow, toNat_ofNat, toNat_ofNat, or_shift _ (by omega)]
  omega

theorem read_le2 (h : l.drop i = le2 v ++ rest) (hv : v < 2 ^ 16) : le16 (readsOf l) i = v := by
  have hlow : byte (readsOf l) i = (UInt8.ofNat v).toNat := byte_of_drop [] h
  have hhigh : byte (readsOf l) (i + 1) = (UInt8.ofNat (v / 2 ^ 8)).toNat := byte_of_drop [_] h
  rw [le16, hlow, hhigh, toNat_ofNat, toNat_ofNat, Nat.or_comm, or_shift _ (by omega)]
  omega

theorem read_le3 (h : l.drop i = le3 v ++ rest) (hv : v < 2 ^ 24) : le24 (readsOf l) i = v := by
  have hlow : byte (readsOf l) i = (UInt8.ofNat v).toNat := byte_of_drop [] h
  have hmid : byte (readsOf l) (i + 1) = (UInt8.ofNat (v / 2 ^ 8)).toNat := byte_of_drop [_] h
  have hhigh : byte (readsOf l) (i + 2) = (UInt8.ofNat (v / 2 ^ 16)).toNat := byte_of_drop [_, _] h
  rw [le24, hlow, hmid, hhigh, toNat_ofNat, toNat_ofNat, toNat_ofNat, Nat.or_comm (v % 2 ^ 8), or_shift _ (by omega),
    Nat.or_comm, or_shift _ (by omega)]
  omega

theorem read_be4 (h : l.drop i = be4 v ++ rest) (hv : v < 2 ^ 32) : be32 (readsOf l) i = some v := by
  have hfirst : readsOf l i = some (UInt8.ofNat (v / 2 ^ 24)) := reads_of_drop [] h
  have hhigh : byte (readsOf l) (i + 1) = (UInt8.ofNat (v / 2 ^ 16)).toNat := byte_of_drop [_] h
  have hmid : byte (readsOf l) (i + 2) = (UInt8.ofNat (v / 2 ^ 8)).toNat := byte_of_drop [_, _] h
  have hlow : byte (readsOf l) (i + 3) = (UInt8.ofNat v).toNat := byte_of_drop [_, _, _] h
  have hwords : (v / 2 ^ 8 % 2 ^ 8) <<< 8 ||| v % 2 ^ 8 = v / 2 ^ 8 % 2 ^ 8 * 2 ^ 8 + v % 2 ^ 8 := or_shift _ (by omega)
  rw [be32, hfirst, hhigh, hmid, hlow, Option.map_some, toNat_ofNat, toNat_ofNat, toNat_ofNat, toNat_ofNat, Nat.or_assoc,
    hwords, or_shift _ (by omega)]
  congr 1
  omega

end Numbers

/-! ## PNG -/

/-- A chunk: the length of its data, its type, the data and a checksum. -/
structure Chunk where
  type : List UInt8
  data : List UInt8
  crc : List UInt8
  htype : type.length = 4
  hdata : data.length < 2 ^ 32
  hcrc : crc.length = 4

def Chunk.bytes (c : Chunk) : List UInt8 := be4 c.data.length ++ (c.type ++ (c.data ++ c.crc))

/-- A PNG up to its first `IDAT`, with any bytes after it. -/
structure Png where
  width : Nat
  height : Nat
  hwidth : width < 2 ^ 32
  hheight : height < 2 ^ 32
  /-- Depth, colour, compression, filter and interlace. -/
  others : List UInt8
  hothers : others.length = 5
  crc : List UInt8
  hcrc : crc.length = 4
  before : List Chunk
  hbefore : ∀ c ∈ before, c.type ≠ ascii "IDAT" ∧ c.type ≠ ascii "IEND"
  image : Chunk
  himage : image.type = ascii "IDAT"
  after : List UInt8

def Png.ihdr (f : Png) : Chunk where
  type := ascii "IHDR"
  data := be4 f.width ++ (be4 f.height ++ f.others)
  crc := f.crc
  htype := rfl
  hdata := by simp [be4, f.hothers]
  hcrc := f.hcrc

def Png.bytes (f : Png) : List UInt8 :=
  pngSignature ++ ((f.ihdr :: f.before).flatMap Chunk.bytes ++ (f.image.bytes ++ f.after))

/-- An `acTL` chunk is among them. -/
def animates (chunks : List Chunk) : Bool := chunks.any fun c => c.type == ascii "acTL"

section Png

variable {l rest : List UInt8} {i fuel : Nat} {c : Chunk}

theorem Chunk.length_bytes (c : Chunk) : c.bytes.length = 12 + c.data.length := by
  simp only [Chunk.bytes, be4, List.length_append, List.length_cons, List.length_nil, c.htype, c.hcrc]
  omega

/-- Where a chunk stands, its type is what the walk looks at. -/
theorem at_chunk (h : l.drop i = c.bytes ++ rest) (s : List UInt8) (hs : s.length = 4) :
    at_ l.length (readsOf l) (i + 4) s = true ↔ c.type = s := by
  have htype : l.drop (i + 4) = c.type ++ (c.data ++ c.crc ++ rest) := by
    rw [Chunk.bytes, List.append_assoc] at h
    have hdrop : l.drop (i + 4) = c.type ++ (c.data ++ c.crc) ++ rest := drop_add h
    rw [hdrop, List.append_assoc]
  by_cases hsame : c.type = s
  · rw [← hsame]
    refine iff_of_true (at_of_drop htype fun hnil => ?_) rfl
    have hlength := c.htype
    rw [hnil] at hlength
    cases hlength
  · refine iff_of_false ?_ hsame
    rw [at_of_ne htype (hs.trans c.htype.symm) (Ne.symm hsame)]
    decide

theorem pngWalk_chunk (h : l.drop i = c.bytes ++ rest) (still : ImageHeader) :
    pngWalk l.length (readsOf l) still (fuel + 1) i =
      if c.type = ascii "acTL" then some (.refused "an animated PNG")
      else if c.type = ascii "IDAT" ∨ c.type = ascii "IEND" then some still
      else pngWalk l.length (readsOf l) still fuel (i + c.bytes.length) := by
  have hlong : ¬l.length < i + 8 := by
    have hlength := congrArg List.length h
    rw [List.length_drop, List.length_append, c.length_bytes] at hlength
    omega
  have hsize : be32 (readsOf l) i = some c.data.length := by
    rw [Chunk.bytes, List.append_assoc] at h
    exact read_be4 h c.hdata
  rw [pngWalk, if_neg hlong, hsize, c.length_bytes]
  simp only [at_chunk h (ascii "acTL") rfl, at_chunk h (ascii "IDAT") rfl, at_chunk h (ascii "IEND") rfl,
    Bool.or_eq_true]

/-- The walk over the chunks before the image data. -/
theorem pngWalk_chunks {before : List Chunk} (hbefore : ∀ c ∈ before, c.type ≠ ascii "IDAT" ∧ c.type ≠ ascii "IEND")
    (himage : c.type = ascii "IDAT") (h : l.drop i = before.flatMap Chunk.bytes ++ (c.bytes ++ rest))
    (still : ImageHeader) (hfuel : before.length < fuel) :
    pngWalk l.length (readsOf l) still fuel i =
      some (if animates before then .refused "an animated PNG" else still) := by
  induction before generalizing i fuel with
  | nil =>
    cases fuel with
    | zero => cases hfuel
    | succ fuel =>
      rw [pngWalk_chunk h, if_neg (by rw [himage]; decide), if_pos (.inl himage)]
      rfl
  | cons d before ih =>
    cases fuel with
    | zero => cases hfuel
    | succ fuel =>
      rw [List.flatMap_cons, List.append_assoc] at h
      obtain ⟨hd, hbefore⟩ := List.forall_mem_cons.1 hbefore
      rw [pngWalk_chunk h, if_neg (not_or.2 hd), ih hbefore (drop_add h) (Nat.lt_of_succ_lt_succ hfuel)]
      have hcons : animates (d :: before) = (d.type == ascii "acTL" || animates before) := rfl
      rw [hcons]
      by_cases hacTL : d.type = ascii "acTL"
      · rw [if_pos hacTL, hacTL]
        rfl
      · rw [if_neg hacTL, beq_false_of_ne hacTL, Bool.false_or]

theorem Png.read (f : Png) : imageHeader f.bytes =
    some (if animates f.before then .refused "an animated PNG" else sized .png f.width f.height "a PNG") := by
  have hsignature : f.bytes.drop 0 = pngSignature ++ f.bytes.drop 8 := rfl
  have hihdr : f.bytes.drop 12 = ascii "IHDR" ++ f.bytes.drop 16 := rfl
  have hwidth : be32 (readsOf f.bytes) 16 = some f.width :=
    read_be4 (show f.bytes.drop 16 = be4 f.width ++ f.bytes.drop 20 from rfl) f.hwidth
  have hheight : be32 (readsOf f.bytes) 20 = some f.height :=
    read_be4 (show f.bytes.drop 20 = be4 f.height ++ f.bytes.drop 24 from rfl) f.hheight
  have hlength : f.bytes.length = 8 + ((12 + (8 + 5)) + ((f.before.flatMap Chunk.bytes).length + (f.image.bytes ++ f.after).length)) := by
    rw [Png.bytes, List.length_append, List.length_append, List.flatMap_cons, List.length_append, f.ihdr.length_bytes]
    have hdata : f.ihdr.data.length = 8 + 5 := by simp [Png.ihdr, be4, f.hothers]
    rw [hdata]
    have hsig : pngSignature.length = 8 := rfl
    omega
  have hfew : (f.ihdr :: f.before).length < f.bytes.length + 1 := by
    have hle := length_le_flatMap (fun c => (by rw [c.length_bytes]; omega : 0 < c.bytes.length)) f.before
    rw [List.length_cons]
    omega
  -- The walk begins at `IHDR`, a chunk like the others.
  have hwalk := pngWalk_chunks (List.forall_mem_cons.2
    ⟨show ascii "IHDR" ≠ ascii "IDAT" ∧ ascii "IHDR" ≠ ascii "IEND" by decide, f.hbefore⟩) f.himage
    (show f.bytes.drop 8 = (f.ihdr :: f.before).flatMap Chunk.bytes ++ (f.image.bytes ++ f.after) from rfl)
    (sized .png f.width f.height "a PNG") hfew
  rw [imageHeader, header, if_pos (at_of_drop hsignature (by decide)), pngHeader, at_of_drop hihdr (by decide), hwidth,
    hheight, if_neg (by simp; omega)]
  exact hwalk

end Png

/-! ## JPEG -/

/-- `TEM` and `RST0`–`RST7`. -/
def Alone (m : Nat) : Prop := m = 0x01 ∨ 0xd0 ≤ m ∧ m ≤ 0xd7

/-- `SOF0`–`SOF3`, `SOF5`–`SOF7`, `SOF9`–`SOF11` and `SOF13`–`SOF15`. -/
def Frame (m : Nat) : Prop :=
  0xc0 ≤ m ∧ m ≤ 0xc3 ∨ 0xc5 ≤ m ∧ m ≤ 0xc7 ∨ 0xc9 ≤ m ∧ m ≤ 0xcb ∨ 0xcd ≤ m ∧ m ≤ 0xcf

/-- The other markers with a length, `SOS` apart: no frame, and none of `SOI`, `EOI` and what is no marker. -/
structure Lengthy (m : Nat) : Prop where
  alone : ¬Alone m
  frame : ¬Frame m
  others : m ≠ 0x00 ∧ m ≠ 0xd8 ∧ m ≠ 0xd9 ∧ m ≠ 0xda ∧ m ≠ 0xff

/-- What may stand before the frame, each after any number of fill bytes. -/
inductive Segment where
  | alone (fill : Nat) (marker : UInt8) (hmarker : Alone marker.toNat)
  | lengthy (fill : Nat) (marker : UInt8) (payload : List UInt8) (hmarker : Lengthy marker.toNat)
    (hpayload : payload.length + 2 < 2 ^ 16)

def Segment.bytes : Segment → List UInt8
  | .alone fill marker _ => List.replicate fill 0xff ++ [0xff, marker]
  | .lengthy fill marker payload _ _ =>
    List.replicate fill 0xff ++ ([0xff, marker] ++ (be2 (payload.length + 2) ++ payload))

/-- A JPEG up to the dimensions in its first frame header, with any bytes after them. -/
structure Jpeg where
  segments : List Segment
  fill : Nat
  marker : UInt8
  hmarker : Frame marker.toNat
  length : Nat
  hlength : 8 ≤ length ∧ length < 2 ^ 16
  precision : UInt8
  height : Nat
  width : Nat
  hheight : height < 2 ^ 16
  hwidth : width < 2 ^ 16
  after : List UInt8

def Jpeg.bytes (f : Jpeg) : List UInt8 :=
  [0xff, 0xd8] ++ (f.segments.flatMap Segment.bytes ++ (List.replicate f.fill 0xff ++
    ([0xff, f.marker] ++ (be2 f.length ++ ([f.precision] ++ (be2 f.height ++ (be2 f.width ++ f.after)))))))

section Jpeg

variable {l rest payload : List UInt8} {i k fuel : Nat} {m : UInt8}

theorem standsAlone_iff {m : Nat} : standsAlone m = true ↔ Alone m := by simp [standsAlone, Alone]

theorem startsFrame_iff {m : Nat} : startsFrame m = true ↔ Frame m := by
  simp only [startsFrame, Frame, Bool.and_eq_true, decide_eq_true_eq, bne_iff_ne]
  omega

/-- A fill byte is skipped. -/
theorem jpegWalk_fill (h : l.drop i = List.replicate k 0xff ++ 0xff :: rest) :
    jpegWalk l.length (readsOf l) (fuel + k) i = jpegWalk l.length (readsOf l) fuel (i + k) := by
  induction k generalizing i with
  | zero => rfl
  | succ k ih =>
    rw [List.replicate_succ, List.cons_append] at h
    have hnext : l.drop (i + 1) = List.replicate k 0xff ++ 0xff :: rest := drop_add (s := [0xff]) h
    have hmarker : readsOf l i = some 0xff := reads_of_drop [] h
    have hfill : byte (readsOf l) (i + 1) = 0xff := by
      cases k with
      | zero => exact byte_of_drop [_] h
      | succ k => exact byte_of_drop [_] h
    have hlong : i + 1 < l.length := by
      cases k with
      | zero => exact lt_of_drop hnext
      | succ k => exact lt_of_drop hnext
    rw [← Nat.add_assoc, jpegWalk, if_pos hlong, if_neg (not_not_intro hmarker)]
    dsimp only
    rw [if_pos hfill, ih hnext]
    congr 1
    omega

/-- At a marker, with what the walk reads of it. -/
theorem marker_reads (h : l.drop i = 0xff :: m :: rest) :
    i + 1 < l.length ∧ readsOf l i = some 0xff ∧ byte (readsOf l) (i + 1) = m.toNat :=
  ⟨lt_of_drop (drop_add (s := [0xff]) h), reads_of_drop [] h, byte_of_drop [_] h⟩

theorem jpegWalk_alone (h : l.drop i = 0xff :: m :: rest) (hm : Alone m.toNat) :
    jpegWalk l.length (readsOf l) (fuel + 1) i = jpegWalk l.length (readsOf l) fuel (i + 2) := by
  obtain ⟨hlong, hmarker, hm'⟩ := marker_reads h
  have hother : m.toNat ≠ 0xff ∧ ¬(m.toNat = 0xd9 ∨ m.toNat = 0xda) := by
    unfold Alone at hm
    omega
  rw [jpegWalk, if_pos hlong, if_neg (not_not_intro hmarker)]
  dsimp only
  rw [hm', if_neg hother.1, if_neg hother.2, if_pos (standsAlone_iff.2 hm)]

theorem jpegWalk_lengthy (h : l.drop i = 0xff :: m :: (be2 k ++ rest)) (hm : Lengthy m.toNat) (hk : k < 2 ^ 16) :
    jpegWalk l.length (readsOf l) (fuel + 1) i = jpegWalk l.length (readsOf l) fuel (i + (2 + k)) := by
  obtain ⟨hlong, hmarker, hm'⟩ := marker_reads h
  obtain ⟨-, -, hd9, hda, hff⟩ := hm.others
  have hlength : be16 (readsOf l) (i + 2) = k := read_be2 (drop_add (s := [0xff, m]) h) hk
  rw [jpegWalk, if_pos hlong, if_neg (not_not_intro hmarker)]
  dsimp only
  rw [hm', hlength, if_neg hff, if_neg (not_or.2 ⟨hd9, hda⟩), if_neg (mt standsAlone_iff.1 hm.alone),
    if_neg (mt startsFrame_iff.1 hm.frame)]

theorem jpegWalk_frame {length height width : Nat} {precision : UInt8} (hm : Frame m.toNat)
    (h : l.drop i = 0xff :: m :: (be2 length ++ ([precision] ++ (be2 height ++ (be2 width ++ rest)))))
    (hlength : 8 ≤ length ∧ length < 2 ^ 16) (hheight : height < 2 ^ 16) (hwidth : width < 2 ^ 16) :
    jpegWalk l.length (readsOf l) (fuel + 1) i = some (sized .jpeg width height "a JPEG") := by
  obtain ⟨hlong, hmarker, hm'⟩ := marker_reads h
  have hother : m.toNat ≠ 0xff ∧ ¬(m.toNat = 0xd9 ∨ m.toNat = 0xda) ∧ ¬Alone m.toNat := by
    unfold Frame at hm
    unfold Alone
    omega
  have hsize : be16 (readsOf l) (i + 2) = length := read_be2 (drop_add (s := [0xff, m]) h) hlength.2
  have hfive : l.drop (i + 5) = be2 height ++ (be2 width ++ rest) := drop_add (s := 0xff :: m :: (be2 length ++ [precision])) h
  have hseven : l.drop (i + 7) = be2 width ++ rest := drop_add (s := be2 height) hfive
  have hwithin : i + 8 < l.length := lt_of_drop (drop_add (s := [UInt8.ofNat (width / 2 ^ 8)]) hseven)
  rw [jpegWalk, if_pos hlong, if_neg (not_not_intro hmarker)]
  dsimp only
  rw [hm', hsize, if_neg hother.1, if_neg hother.2.1, if_neg (mt standsAlone_iff.1 hother.2.2),
    if_pos (startsFrame_iff.2 hm), if_neg (by omega), read_be2 hseven hwidth, read_be2 hfive hheight]

/-- How many rounds the walk takes over a segment. -/
def Segment.rounds : Segment → Nat
  | .alone fill _ _ => fill + 1
  | .lengthy fill _ _ _ _ => fill + 1

theorem rounds_le (g : Segment) : g.rounds ≤ g.bytes.length := by
  cases g with
  | alone fill => simp [Segment.rounds, Segment.bytes]
  | lengthy fill =>
    simp only [Segment.rounds, Segment.bytes, List.length_append, List.length_replicate, List.length_cons, List.length_nil]
    omega

theorem jpegWalk_segment {g : Segment} (h : l.drop i = g.bytes ++ rest) :
    jpegWalk l.length (readsOf l) (fuel + g.rounds) i = jpegWalk l.length (readsOf l) fuel (i + g.bytes.length) := by
  cases g with
  | alone fill marker hmarker =>
    rw [Segment.bytes, List.append_assoc] at h
    have hat : l.drop (i + fill) = 0xff :: marker :: rest := by
      have hdrop := drop_add h
      rwa [List.length_replicate] at hdrop
    rw [Segment.rounds, ← Nat.add_assoc, Nat.add_right_comm, jpegWalk_fill h, jpegWalk_alone hat hmarker]
    simp [Segment.bytes, Nat.add_assoc]
  | lengthy fill marker payload hmarker hpayload =>
    rw [Segment.bytes, List.append_assoc] at h
    have hat : l.drop (i + fill) = 0xff :: marker :: (be2 (payload.length + 2) ++ (payload ++ rest)) := by
      have hdrop := drop_add h
      rwa [List.length_replicate] at hdrop
    rw [Segment.rounds, ← Nat.add_assoc, Nat.add_right_comm, jpegWalk_fill h, jpegWalk_lengthy hat hmarker hpayload]
    congr 1
    simp [Segment.bytes, be2]
    omega

theorem jpegWalk_segments {segments : List Segment} (h : l.drop i = segments.flatMap Segment.bytes ++ rest) :
    jpegWalk l.length (readsOf l) (fuel + (segments.map Segment.rounds).sum) i =
      jpegWalk l.length (readsOf l) fuel (i + (segments.flatMap Segment.bytes).length) := by
  induction segments generalizing i with
  | nil => rfl
  | cons g segments ih =>
    rw [List.flatMap_cons, List.append_assoc] at h
    rw [List.map_cons, List.sum_cons, Nat.add_comm g.rounds, ← Nat.add_assoc, jpegWalk_segment h, ih (drop_add h),
      List.flatMap_cons, List.length_append, Nat.add_assoc]

theorem rounds_sum_le (segments : List Segment) :
    (segments.map Segment.rounds).sum ≤ (segments.flatMap Segment.bytes).length := by
  induction segments with
  | nil => exact Nat.zero_le _
  | cons g segments ih =>
    rw [List.map_cons, List.sum_cons, List.flatMap_cons, List.length_append]
    exact Nat.add_le_add (rounds_le g) ih

/-- What stands before a frame begins with a marker or a fill byte, as the frame does. -/
theorem segments_head (segments : List Segment) (rest : List UInt8) :
    ∃ more, segments.flatMap Segment.bytes ++ (List.replicate k 0xff ++ 0xff :: rest) = 0xff :: more := by
  cases segments with
  | nil => cases k <;> exact ⟨_, rfl⟩
  | cons g segments =>
    cases g with
    | alone fill => cases fill <;> exact ⟨_, rfl⟩
    | lengthy fill => cases fill <;> exact ⟨_, rfl⟩

theorem Jpeg.read (f : Jpeg) : imageHeader f.bytes = some (sized .jpeg f.width f.height "a JPEG") := by
  set tail := be2 f.length ++ ([f.precision] ++ (be2 f.height ++ (be2 f.width ++ f.after))) with htail
  have hsegments : f.bytes.drop 2 = f.segments.flatMap Segment.bytes ++
    (List.replicate f.fill 0xff ++ 0xff :: f.marker :: tail) := rfl
  obtain ⟨more, hmore⟩ := segments_head (k := f.fill) f.segments (f.marker :: tail)
  have hfirst : readsOf f.bytes 0 = some 0xff := rfl
  have hsecond : readsOf f.bytes 1 = some 0xd8 := rfl
  have hthird : readsOf f.bytes 2 = some 0xff := reads_of_drop [] (hsegments.trans hmore)
  have hfill := drop_add hsegments
  have hframe := drop_add hfill
  rw [List.length_replicate] at hframe
  have hwithin := lt_of_drop hframe
  have hrounds := rounds_sum_le f.segments
  obtain ⟨fuel, hfuel⟩ : ∃ fuel, f.bytes.length + 1 = fuel + 1 + f.fill + (f.segments.map Segment.rounds).sum :=
    ⟨f.bytes.length - f.fill - (f.segments.map Segment.rounds).sum, by omega⟩
  rw [imageHeader, header, at_of_head hfirst (y := 0x89) rfl (by decide), if_neg (by decide),
    if_pos ⟨by omega, hfirst, hsecond, hthird⟩, hfuel, jpegWalk_segments hsegments, jpegWalk_fill hfill,
    jpegWalk_frame f.hmarker hframe f.hlength f.hheight f.hwidth]

end Jpeg

/-! ## WebP -/

/-- The first chunk of a WebP. The dimensions of `VP8L` and `VP8X` are written less one. -/
inductive Lead where
  | vp8 (tag₀ tag₁ tag₂ : UInt8) (width height xScale yScale : Nat)
    (hwidth : width < 2 ^ 14 ∧ xScale < 4) (hheight : height < 2 ^ 14 ∧ yScale < 4)
  | vp8l (width height flags : Nat) (hwidth : width < 2 ^ 14) (hheight : height < 2 ^ 14) (hflags : flags < 16)
  | vp8x (flags reserved₀ reserved₁ reserved₂ : UInt8) (width height : Nat) (hwidth : width < 2 ^ 24)
    (hheight : height < 2 ^ 24)

def Lead.fourCc : Lead → List UInt8
  | .vp8 .. => ascii "VP8 "
  | .vp8l .. => ascii "VP8L"
  | .vp8x .. => ascii "VP8X"

def Lead.bytes : Lead → List UInt8
  | .vp8 tag₀ tag₁ tag₂ width height xScale yScale _ _ =>
    [tag₀, tag₁, tag₂, 0x9d, 0x01, 0x2a] ++ (le2 (width + xScale * 2 ^ 14) ++ le2 (height + yScale * 2 ^ 14))
  | .vp8l width height flags _ _ _ => 0x2f :: le4 (width + height * 2 ^ 14 + flags * 2 ^ 28)
  | .vp8x flags reserved₀ reserved₁ reserved₂ width height _ _ =>
    [flags, reserved₀, reserved₁, reserved₂] ++ (le3 width ++ le3 height)

/-- A WebP up to the dimensions in its first chunk, with any bytes after them. -/
structure Webp where
  size : Nat
  chunkSize : Nat
  lead : Lead
  after : List UInt8

def Webp.bytes (f : Webp) : List UInt8 :=
  ascii "RIFF" ++ (le4 f.size ++ (ascii "WEBP" ++ (f.lead.fourCc ++ (le4 f.chunkSize ++ (f.lead.bytes ++ f.after)))))

/-- What a chunk's header says; the animation flag is the second bit of the flags of `VP8X`. -/
def Lead.answer : Lead → ImageHeader
  | .vp8 _ _ _ width height _ _ _ _ => sized .webp width height "a WebP"
  | .vp8l width height _ _ _ _ => .ok .webp (width + 1) (height + 1)
  | .vp8x flags _ _ _ width height _ _ =>
    if flags.toNat / 2 % 2 = 1 then .refused "an animated WebP" else .ok .webp (width + 1) (height + 1)

section Webp

theorem sized_pos {mimeType : MimeType} {width height : Nat} (name : String) (hwidth : 0 < width) (hheight : 0 < height) :
    sized mimeType width height name = .ok mimeType width height := if_pos ⟨hwidth, hheight⟩

/-- The number of 32 bits that four bytes give. -/
theorem bits_bytes {w x y z : Nat} (hw : w < 2 ^ 8) (hx : x < 2 ^ 8) (hy : y < 2 ^ 8) (hz : z < 2 ^ 8) :
    (BitVec.ofNat 32 w ||| BitVec.ofNat 32 x <<< 8 ||| BitVec.ofNat 32 y <<< 16 ||| BitVec.ofNat 32 (z * 2 ^ 24)).toNat =
      w + x * 2 ^ 8 + y * 2 ^ 16 + z * 2 ^ 24 := by
  have hsecond : (BitVec.ofNat 32 x <<< 8).toNat = x <<< 8 := by
    rw [BitVec.toNat_shiftLeft, BitVec.toNat_ofNat, Nat.shiftLeft_eq, Nat.shiftLeft_eq]
    omega
  have hthird : (BitVec.ofNat 32 y <<< 16).toNat = y <<< 16 := by
    rw [BitVec.toNat_shiftLeft, BitVec.toNat_ofNat, Nat.shiftLeft_eq, Nat.shiftLeft_eq]
    omega
  have hlast : (BitVec.ofNat 32 (z * 2 ^ 24)).toNat = z <<< 24 := by
    rw [BitVec.toNat_ofNat, Nat.shiftLeft_eq]
    omega
  have hfirst : (BitVec.ofNat 32 w).toNat = w := by
    rw [BitVec.toNat_ofNat]
    omega
  rw [BitVec.toNat_or, BitVec.toNat_or, BitVec.toNat_or, hfirst, hsecond, hthird, hlast, Nat.or_comm w, or_shift x hw,
    Nat.or_comm _ (y <<< 16), or_shift y (by omega), Nat.or_comm, or_shift z (by omega)]
  omega

/-- Its two numbers of 14 bits. -/
theorem bits_read {v : Nat} (hv : v < 2 ^ 32) {bits : BitVec 32} (hbits : bits.toNat = v) :
    (bits &&& 0x3fff).toNat = v % 2 ^ 14 ∧
      (BitVec.ofInt 32 (bits.toInt / 2 ^ 14) &&& 0x3fff).toNat = v / 2 ^ 14 % 2 ^ 14 := by
  have hmask : (0x3fff : BitVec 32).toNat = 2 ^ 14 - 1 := rfl
  constructor
  · rw [BitVec.toNat_and, hmask, Nat.and_two_pow_sub_one_eq_mod, hbits]
  · rw [BitVec.toNat_and, hmask, Nat.and_two_pow_sub_one_eq_mod, BitVec.toNat_ofInt, BitVec.toInt_eq_toNat_cond, hbits]
    split <;> omega

theorem flag_iff (flags : UInt8) : flags.toNat &&& 0x02 ≠ 0 ↔ flags.toNat / 2 % 2 = 1 := by
  have hall : ∀ x < 256, (x &&& 0x02 ≠ 0 ↔ x / 2 % 2 = 1) := by decide +kernel
  exact hall _ flags.toNat_lt

theorem low14 {v scale : Nat} (hv : v < 2 ^ 14) : (v + scale * 2 ^ 14) &&& 0x3fff = v := by
  rw [show 0x3fff = 2 ^ 14 - 1 from rfl, Nat.and_two_pow_sub_one_eq_mod, Nat.add_mul_mod_self_right, Nat.mod_eq_of_lt hv]

theorem webpHeader_read (f : Webp) : webpHeader f.bytes.length (readsOf f.bytes) = f.lead.answer := by
  obtain ⟨size, chunkSize, lead, after⟩ := f
  set l := Webp.bytes ⟨size, chunkSize, lead, after⟩ with hl
  cases lead with
  | vp8 tag₀ tag₁ tag₂ width height xScale yScale hwidth hheight =>
    have hkind : l.drop 12 = ascii "VP8 " ++ l.drop 16 := rfl
    have hlong : 29 < l.length := lt_of_drop (show l.drop 29 = _ :: after from rfl)
    have hcode : readsOf l 23 = some 0x9d ∧ readsOf l 24 = some 0x01 ∧ readsOf l 25 = some 0x2a := ⟨rfl, rfl, rfl⟩
    have hw : le16 (readsOf l) 26 = width + xScale * 2 ^ 14 :=
      read_le2 (show l.drop 26 = le2 _ ++ l.drop 28 from rfl) (by omega)
    have hh : le16 (readsOf l) 28 = height + yScale * 2 ^ 14 :=
      read_le2 (show l.drop 28 = le2 _ ++ l.drop 30 from rfl) (by omega)
    rw [webpHeader, if_pos (at_of_drop hkind (by decide)), hcode.1, hcode.2.1, hcode.2.2, if_neg (by simp; omega), hw, hh,
      low14 hwidth.1, low14 hheight.1]
    rfl
  | vp8l width height flags hwidth hheight hflags =>
    have hkind : l.drop 12 = ascii "VP8L" ++ l.drop 16 := rfl
    have hlong : 24 < l.length := lt_of_drop (show l.drop 24 = _ :: after from rfl)
    have hsignature : readsOf l 20 = some 0x2f := rfl
    set v := width + height * 2 ^ 14 + flags * 2 ^ 28 with hv
    have hread : l.drop 21 = le4 v ++ after := rfl
    have hfirst : byte (readsOf l) 21 = v % 2 ^ 8 := (byte_of_drop [] hread).trans (toNat_ofNat _)
    have hsecond : byte (readsOf l) 22 = v / 2 ^ 8 % 2 ^ 8 := (byte_of_drop [_] hread).trans (toNat_ofNat _)
    have hthird : byte (readsOf l) 23 = v / 2 ^ 16 % 2 ^ 8 := (byte_of_drop [_, _] hread).trans (toNat_ofNat _)
    have hfourth : byte (readsOf l) 24 = v / 2 ^ 24 % 2 ^ 8 := (byte_of_drop [_, _, _] hread).trans (toNat_ofNat _)
    have hbound : v < 2 ^ 32 := by omega
    have hbits := bits_bytes (Nat.mod_lt v (by decide)) (Nat.mod_lt (v / 2 ^ 8) (by decide))
      (Nat.mod_lt (v / 2 ^ 16) (by decide)) (Nat.mod_lt (v / 2 ^ 24) (by decide))
    obtain ⟨hlow, hhigh⟩ := bits_read hbound (hbits.trans (by omega))
    rw [webpHeader, at_of_ne hkind (s := ascii "VP8 ") rfl (by decide), if_neg (by decide),
      if_pos (at_of_drop hkind (by decide)), hsignature, if_neg (by simp; omega), hfirst, hsecond, hthird, hfourth]
    dsimp only
    rw [hlow, hhigh, sized_pos _ (Nat.succ_pos _) (Nat.succ_pos _)]
    have hw : v % 2 ^ 14 = width := by omega
    have hh : v / 2 ^ 14 % 2 ^ 14 = height := by omega
    rw [hw, hh]
    rfl
  | vp8x flags reserved₀ reserved₁ reserved₂ width height hwidth hheight =>
    have hkind : l.drop 12 = ascii "VP8X" ++ l.drop 16 := rfl
    have hlong : 29 < l.length := lt_of_drop (show l.drop 29 = _ :: after from rfl)
    have hflags : byte (readsOf l) 20 = flags.toNat := rfl
    have hw : le24 (readsOf l) 24 = width := read_le3 (show l.drop 24 = le3 _ ++ l.drop 27 from rfl) hwidth
    have hh : le24 (readsOf l) 27 = height := read_le3 (show l.drop 27 = le3 _ ++ l.drop 30 from rfl) hheight
    rw [webpHeader, at_of_ne hkind (s := ascii "VP8 ") rfl (by decide), if_neg (by decide),
      at_of_ne hkind (s := ascii "VP8L") rfl (by decide), if_neg (by decide), if_pos (at_of_drop hkind (by decide)),
      if_neg (by omega), hflags, hw, hh, sized_pos _ (Nat.succ_pos _) (Nat.succ_pos _), if_congr (flag_iff flags) rfl rfl]
    rfl

theorem Webp.read (f : Webp) : imageHeader f.bytes = some f.lead.answer := by
  have hriff : f.bytes.drop 0 = ascii "RIFF" ++ f.bytes.drop 4 := rfl
  have hwebp : f.bytes.drop 8 = ascii "WEBP" ++ f.bytes.drop 12 := rfl
  have hfirst : readsOf f.bytes 0 = some 0x52 := rfl
  rw [imageHeader, header, at_of_head hfirst (y := 0x89) rfl (by decide), if_neg (by decide),
    if_neg (by rw [hfirst]; simp), at_of_drop hriff (by decide), at_of_drop hwebp (by decide),
    if_pos (show (true && true) = true from rfl), webpHeader_read]

end Webp

/-! ## GIF -/

/-- How many bytes a colour table takes: its packed byte has the highest bit set where there is one, and its size in the
lowest three. -/
def tableSize (packed : UInt8) : Nat := if 128 ≤ packed.toNat then 3 * 2 ^ (packed.toNat % 8 + 1) else 0

structure SubBlock where
  bytes : List UInt8
  hpos : 0 < bytes.length
  hlong : bytes.length < 256

/-- Sub-blocks, each after its length, up to one of no length. -/
def dataBytes (blocks : List SubBlock) : List UInt8 :=
  blocks.flatMap (fun d => UInt8.ofNat d.bytes.length :: d.bytes) ++ [0]

inductive Block where
  | image (left top width height : Nat) (packed : UInt8) (table : List UInt8) (htable : table.length = tableSize packed)
    (codeSize : UInt8) (data : List SubBlock)
  | extension (label : UInt8) (data : List SubBlock)

def Block.bytes : Block → List UInt8
  | .image left top width height packed table _ codeSize data =>
    0x2c :: (le2 left ++ (le2 top ++ (le2 width ++ (le2 height ++ (packed :: (table ++ (codeSize :: dataBytes data)))))))
  | .extension label data => 0x21 :: label :: dataBytes data

def Block.isImage : Block → Bool
  | .image .. => true
  | .extension .. => false

/-- A GIF up to its trailer, with any bytes after it. -/
structure Gif where
  /-- Version 89a, or 87a. -/
  late : Bool
  width : Nat
  height : Nat
  hwidth : width < 2 ^ 16
  hheight : height < 2 ^ 16
  packed : UInt8
  background : UInt8
  aspect : UInt8
  table : List UInt8
  htable : table.length = tableSize packed
  blocks : List Block
  after : List UInt8

def Gif.bytes (f : Gif) : List UInt8 :=
  (if f.late then ascii "GIF89a" else ascii "GIF87a") ++ (le2 f.width ++ (le2 f.height ++
    (f.packed :: f.background :: f.aspect :: (f.table ++ (f.blocks.flatMap Block.bytes ++ 0x3b :: f.after)))))

/-- What is answered for a number of image descriptors before the trailer. -/
def gifAnswer (width height : Nat) : Nat → ImageHeader
  | 0 => .refused "a GIF with no image in it"
  | 1 => sized .gif width height "a GIF"
  | _ => .refused "an animated GIF"

section Gif

variable {l rest : List UInt8} {i fuel : Nat}

theorem tableBytes_eq (packed : UInt8) : tableBytes packed.toNat = tableSize packed := by
  have hflag : ∀ x < 256, (x &&& 0x80 ≠ 0 ↔ 128 ≤ x) := by decide +kernel
  rw [tableBytes, tableSize, if_congr (hflag _ packed.toNat_lt) rfl rfl, show 7 = 2 ^ 3 - 1 from rfl,
    Nat.and_two_pow_sub_one_eq_mod]

theorem subBlocks_data {blocks : List SubBlock} (h : l.drop i = dataBytes blocks ++ rest) (hfuel : blocks.length < fuel) :
    subBlocks l.length (readsOf l) fuel i = some (i + (dataBytes blocks).length) := by
  induction blocks generalizing i fuel with
  | nil =>
    cases fuel with
    | zero => cases hfuel
    | succ fuel =>
      have hzero : readsOf l i = some 0 := reads_of_drop [] h
      rw [subBlocks, hzero, if_neg (by simp)]
      rfl
  | cons d blocks ih =>
    cases fuel with
    | zero => cases hfuel
    | succ fuel =>
      have hcons : l.drop i = (UInt8.ofNat d.bytes.length :: d.bytes) ++ (dataBytes blocks ++ rest) := by
        rw [h]
        simp [dataBytes]
      have hsize : byte (readsOf l) i = d.bytes.length :=
        (byte_of_drop [] hcons).trans ((toNat_ofNat _).trans (Nat.mod_eq_of_lt d.hlong))
      have hread : readsOf l i ≠ some 0 := by
        intro hzero
        rw [byte, hzero] at hsize
        exact absurd hsize.symm (Nat.ne_of_gt d.hpos)
      have hlt : i < l.length := lt_of_drop hcons
      have hnext := drop_add hcons
      rw [subBlocks, if_pos ⟨hlt, hread⟩, hsize]
      rw [List.length_cons] at hnext
      rw [ih hnext (Nat.lt_of_succ_lt_succ hfuel)]
      simp [dataBytes]
      omega

theorem length_data_lt {blocks : List SubBlock} (h : l.drop i = dataBytes blocks ++ rest) :
    blocks.length < l.length + 1 := by
  have hlength := congrArg List.length h
  have hle := length_le_flatMap (f := fun d : SubBlock => UInt8.ofNat d.bytes.length :: d.bytes)
    (fun d => Nat.succ_pos _) blocks
  rw [List.length_drop, dataBytes, List.length_append, List.length_append] at hlength
  omega

theorem gifWalk_image {left top wide high width height frames : Nat} {packed codeSize : UInt8} {table : List UInt8}
    {htable : table.length = tableSize packed} {data : List SubBlock}
    (h : l.drop i = (Block.image left top wide high packed table htable codeSize data).bytes ++ rest) :
    gifWalk l.length (readsOf l) width height (fuel + 1) i frames =
      if 1 < frames + 1 then some (.refused "an animated GIF")
      else gifWalk l.length (readsOf l) width height fuel
        (i + (Block.image left top wide high packed table htable codeSize data).bytes.length) (frames + 1) := by
  have hlt : i < l.length := lt_of_drop h
  have hread : readsOf l i = some 0x2c := reads_of_drop [] h
  have hpacked : byte (readsOf l) (i + 9) = packed.toNat :=
    byte_of_drop (0x2c :: (le2 left ++ (le2 top ++ (le2 wide ++ le2 high)))) h
  have hdata : l.drop (i + (10 + tableSize packed + 1)) = dataBytes data ++ rest := by
    have hsplit : l.drop i = (0x2c :: (le2 left ++ (le2 top ++ (le2 wide ++ (le2 high ++ (packed :: (table ++ [codeSize])))))))
        ++ (dataBytes data ++ rest) := by
      rw [h]
      simp [Block.bytes]
    have hdrop := drop_add hsplit
    rw [← hdrop, ← htable]
    congr 1
    simp [le2]
    omega
  rw [gifWalk, if_neg (by omega), hread, if_neg (by decide), if_pos rfl, hpacked, tableBytes_eq,
    subBlocks_data hdata (length_data_lt hdata), Option.bind_some]
  have hnext : i + (10 + tableSize packed + 1) + (dataBytes data).length =
      i + (Block.image left top wide high packed table htable codeSize data).bytes.length := by
    simp [Block.bytes, le2, htable]
    omega
  rw [hnext]

theorem gifWalk_extension {width height frames : Nat} {label : UInt8} {data : List SubBlock}
    (h : l.drop i = (Block.extension label data).bytes ++ rest) :
    gifWalk l.length (readsOf l) width height (fuel + 1) i frames =
      gifWalk l.length (readsOf l) width height fuel (i + (Block.extension label data).bytes.length) frames := by
  have hlt : i < l.length := lt_of_drop h
  have hread : readsOf l i = some 0x21 := reads_of_drop [] h
  have hdata : l.drop (i + 2) = dataBytes data ++ rest := drop_add (s := [0x21, label]) h
  rw [gifWalk, if_neg (by omega), hread, if_neg (by decide), if_neg (by decide), if_pos rfl,
    subBlocks_data hdata (length_data_lt hdata), Option.bind_some]
  congr 1
  simp [Block.bytes]
  omega

/-- The walk over the blocks to the trailer, with one image met at most. -/
theorem gifWalk_blocks {width height frames : Nat} {blocks : List Block}
    (h : l.drop i = blocks.flatMap Block.bytes ++ 0x3b :: rest) (hfuel : blocks.length < fuel) (hframes : frames ≤ 1) :
    gifWalk l.length (readsOf l) width height fuel i frames =
      some (gifAnswer width height (frames + blocks.countP Block.isImage)) := by
  induction blocks generalizing i fuel frames with
  | nil =>
    cases fuel with
    | zero => cases hfuel
    | succ fuel =>
      have hlt : i < l.length := lt_of_drop h
      have hread : readsOf l i = some 0x3b := reads_of_drop [] h
      rw [gifWalk, if_neg (by omega), hread, if_pos rfl]
      cases frames with
      | zero => rfl
      | succ frames =>
        cases Nat.le_zero.1 (Nat.le_of_succ_le_succ hframes)
        rfl
  | cons block blocks ih =>
    cases fuel with
    | zero => cases hfuel
    | succ fuel =>
      have hless : blocks.length < fuel := Nat.lt_of_succ_lt_succ hfuel
      rw [List.flatMap_cons, List.append_assoc] at h
      cases block with
      | image left top wide high packed table htable codeSize data =>
        rw [gifWalk_image h, List.countP_cons_of_pos rfl]
        cases frames with
        | zero =>
          rw [if_neg (by decide), ih (drop_add h) hless (Nat.le_refl 1), Nat.zero_add, Nat.add_comm]
        | succ frames =>
          rw [if_pos (by omega), show frames + 1 + (blocks.countP Block.isImage + 1) =
            frames + blocks.countP Block.isImage + 2 by omega]
          rfl
      | extension label data =>
        rw [gifWalk_extension h, ih (drop_add h) hless hframes, List.countP_cons_of_neg Bool.false_ne_true]

theorem block_pos (block : Block) : 0 < block.bytes.length := by
  cases block <;> exact Nat.succ_pos _

theorem Gif.read (f : Gif) :
    imageHeader f.bytes = some (gifAnswer f.width f.height (f.blocks.countP Block.isImage)) := by
  have hfirst : readsOf f.bytes 0 = some 0x47 := by
    unfold Gif.bytes
    cases f.late <;> rfl
  have hversion : (at_ f.bytes.length (readsOf f.bytes) 0 (ascii "GIF87a") ||
      at_ f.bytes.length (readsOf f.bytes) 0 (ascii "GIF89a")) = true := by
    cases hlate : f.late with
    | false =>
      have hat : f.bytes.drop 0 = ascii "GIF87a" ++ f.bytes.drop 6 := by
        rw [Gif.bytes, hlate]
        rfl
      rw [at_of_drop hat (by decide), Bool.true_or]
    | true =>
      have hat : f.bytes.drop 0 = ascii "GIF89a" ++ f.bytes.drop 6 := by
        rw [Gif.bytes, hlate]
        rfl
      rw [at_of_drop hat (by decide), Bool.or_true]
  have hscreen : f.bytes.drop 6 = le2 f.width ++ (le2 f.height ++
      (f.packed :: f.background :: f.aspect :: (f.table ++ (f.blocks.flatMap Block.bytes ++ 0x3b :: f.after)))) := by
    unfold Gif.bytes
    cases f.late <;> rfl
  have hheight : f.bytes.drop 8 = le2 f.height ++ _ := drop_add hscreen
  have hpacked : byte (readsOf f.bytes) 10 = f.packed.toNat := byte_of_drop (le2 f.width ++ le2 f.height) hscreen
  have htable : f.bytes.drop 13 = f.table ++ (f.blocks.flatMap Block.bytes ++ 0x3b :: f.after) :=
    drop_add (s := le2 f.width ++ (le2 f.height ++ [f.packed, f.background, f.aspect])) hscreen
  have hblocks := drop_add htable
  rw [f.htable] at hblocks
  have hfew : f.blocks.length < f.bytes.length + 1 := by
    have hlength := congrArg List.length hblocks
    have hle := length_le_flatMap block_pos f.blocks
    rw [List.length_drop, List.length_append] at hlength
    omega
  rw [imageHeader, header, at_of_head hfirst (y := 0x89) rfl (by decide), if_neg (by decide),
    if_neg (by rw [hfirst]; simp), at_of_head hfirst (y := 0x52) rfl (by decide), Bool.false_and, if_neg (by decide),
    if_pos hversion, gifHeader, read_le2 hscreen f.hwidth, read_le2 hheight f.hheight, hpacked, tableBytes_eq,
    gifWalk_blocks hblocks hfew (Nat.zero_le 1), Nat.zero_add]

end Gif

/-! ## Every byte array -/

/-- `imageHeader` ends on every byte array; an answer that accepts does not depend on what stands past the array's end,
and gives positive dimensions. A PNG gives those of `IHDR` unless `acTL` comes before its first `IDAT`; a JPEG those of
its first frame; a WebP those of its header, unless it is animated; a GIF those of its screen where one image descriptor
comes before its trailer. What is animated is refused. -/
theorem image_header :
    (∀ bytes, ∃ answer, imageHeader bytes = some answer) ∧
    (∀ bytes mimeType width height, imageHeader bytes = some (.ok mimeType width height) →
      ∀ b, (∀ i < bytes.length, b i = bytes[i]?) →
        header bytes.length b (bytes.length + 1) = some (.ok mimeType width height)) ∧
    (∀ bytes mimeType width height, imageHeader bytes = some (.ok mimeType width height) → 0 < width ∧ 0 < height) ∧
    (∀ f : Png, imageHeader f.bytes =
      some (if animates f.before then .refused "an animated PNG" else sized .png f.width f.height "a PNG")) ∧
    (∀ f : Jpeg, imageHeader f.bytes = some (sized .jpeg f.width f.height "a JPEG")) ∧
    (∀ f : Webp, imageHeader f.bytes = some f.lead.answer) ∧
    ∀ f : Gif, imageHeader f.bytes = some (gifAnswer f.width f.height (f.blocks.countP Block.isImage)) := by
  refine ⟨fun bytes => ?_, fun bytes mimeType width height hok b hb => ?_, fun bytes mimeType width height hok => ?_,
    Png.read, Jpeg.read, Webp.read, Gif.read⟩
  · refine Option.isSome_iff_exists.1 (header_ends (fun i hi => ?_) (Nat.lt_succ_self _))
    rw [readsOf, List.getElem?_eq_getElem hi]
    rfl
  · have hagree : Agree bytes.length (readsOf bytes) b := fun i hi => (hb i hi).symm
    exact hagree.header hok ⟨mimeType, width, height, rfl⟩
  · exact header_dimensioned hok

end Antiproton.Raft
