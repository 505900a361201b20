import Antiproton.Artifacts.Read

/-!
# Antiproton.Artifacts.Paged

The pages of an artifact are the artifact, and each stays under the line it meets exactly when its text, with what JSON
escapes of it, leaves room for the rest of the page.

* `text_step`, `base64_step`: one page goes on from where it was asked to.
* `Fits`: the condition, on the characters of the text.
* `pages_back`: the pages of an artifact read back.
-/

namespace Antiproton.Artifacts

open Js Slices Paging

/-! ## The pages of a text -/

section Text

variable {raw : Str} {n m : Nat}

theorem Splits.lt (h : Splits raw n) : n < raw.length := by
  by_contra hge
  have hlow := h.2.2
  rw [List.getD_eq_getElem?_getD, List.getElem?_eq_none (by omega)] at hlow
  cases hlow

theorem pageStart_eq (raw : Str) (n : Nat) : pageStart raw n = if Splits raw n then n - 1 else n := by
  unfold pageStart
  by_cases h : Splits raw n
  · rw [if_pos h, if_pos ⟨h.1, h.lt, h.2.2, h.2.1⟩]
  · rw [if_neg h, if_neg fun hall => h ⟨hall.1, hall.2.2.2, hall.2.2.1⟩]

/-- Where a page may start or end, and how much of the text it then is: all that is left, or a page's worth, less half a
pair. -/
structure Span (raw : Str) (a b : Nat) : Prop where
  le : a ≤ b
  inside : b ≤ raw.length
  starts : ¬Splits raw a
  ends : ¬Splits raw b
  full : b = raw.length ∧ b ≤ a + READ_PAGE ∨ b = a + READ_PAGE ∨ b + 1 = a + READ_PAGE ∧ Splits raw (a + READ_PAGE)

theorem pageEnd_span (hraw : Paired raw) (hn : n ≤ raw.length) (hstart : ¬Splits raw n) : Span raw n (pageEnd raw n) := by
  have hpage : READ_PAGE = 16384 := rfl
  unfold pageEnd
  dsimp only
  split
  · rename_i h
    obtain ⟨hlt, hgt, hhigh⟩ := h
    have hend : min (n + READ_PAGE) raw.length = n + READ_PAGE := by omega
    rw [hend] at hlt hhigh ⊢
    have hlow := hraw.low hhigh
    rw [show n + READ_PAGE - 1 + 1 = n + READ_PAGE by omega] at hlow
    refine ⟨by omega, by omega, hstart, fun h => ?_, .inr (.inr ⟨by omega, by omega, hhigh, hlow⟩)⟩
    have hno := h.2.2
    rw [not_isLow hhigh] at hno
    cases hno
  · rename_i h
    refine ⟨by omega, by omega, hstart, fun hsplits => h ⟨hsplits.lt, ?_, hsplits.2.1⟩, ?_⟩
    · have := hsplits.lt
      omega
    · omega

/-- A page's end is where it has to be. -/
theorem Span.eq (hraw : Paired raw) (h : Span raw n m) : m = pageEnd raw n := by
  have hpage : READ_PAGE = 16384 := rfl
  have hle := h.le
  have hinside := h.inside
  unfold pageEnd
  dsimp only
  rcases h.full with ⟨rfl, hfull⟩ | hfull | ⟨hfull, hsplits⟩
  · rw [if_neg (by omega)]
    omega
  · have hend : min (n + READ_PAGE) raw.length = m := by omega
    rw [hend, if_neg]
    rintro ⟨-, hgt, hhigh⟩
    have hlow := hraw.low hhigh
    rw [show m - 1 + 1 = m by omega] at hlow
    exact h.ends ⟨by omega, hhigh, hlow⟩
  · have hlt := hsplits.lt
    have hend : min (n + READ_PAGE) raw.length = n + READ_PAGE := by omega
    rw [hend, if_pos ⟨hlt, by omega, hsplits.2.1⟩]
    omega

theorem pageEnd_lt (hn : n < raw.length) : n < pageEnd raw n := by
  have hpage : READ_PAGE = 16384 := rfl
  unfold pageEnd
  dsimp only
  split
  · rename_i h
    exact h.2.1
  · omega

/-- What is between two places where no pair is cut has no half of one. -/
theorem paired_between (hraw : Paired raw) (hn : ¬Splits raw n) (hm : ¬Splits raw m) (hle : m ≤ raw.length) :
    Paired (between raw n m) := by
  by_cases hnm : n ≤ m
  · have htake : Paired (raw.take m) := by
      have hwhole : Paired (raw.take m ++ raw.drop m) := by rwa [List.take_append_drop]
      refine (hwhole.split ?_).1
      rwa [List.take_append_drop, List.length_take, Nat.min_eq_left hle]
    have hcut : Paired ((raw.take m).take n ++ (raw.take m).drop n) := by rwa [List.take_append_drop]
    refine (hcut.split ?_).2
    rw [List.take_append_drop, List.length_take, List.length_take, Nat.min_eq_left hle, Nat.min_eq_left hnm]
    rintro ⟨hpos, hhigh, hlow⟩
    have hlt : n < m := by
      by_contra hge
      rw [List.getD_eq_getElem?_getD, List.getElem?_eq_none (by rw [List.length_take]; omega)] at hlow
      cases hlow
    rw [List.getD_eq_getElem?_getD, List.getElem?_take, if_pos (by omega)] at hhigh hlow
    rw [← List.getD_eq_getElem?_getD] at hhigh hlow
    exact hn ⟨hpos, hhigh, hlow⟩
  · rw [between, List.drop_eq_nil_of_le (by rw [List.length_take]; omega)]
    exact .nil

theorem pageStart_good (raw : Str) (n : Nat) : ¬Splits raw (pageStart raw n) := by
  rw [pageStart_eq]
  split
  · rename_i h
    intro hbefore
    have hno := hbefore.2.2
    rw [not_isLow h.2.1] at hno
    cases hno
  · assumption

end Text

/-! ## How long they are -/

/-- What a page of a text is beside the text: the names, the numbers and the longest note. -/
def frame (bytes whole a b : Nat) : Nat :=
  if b < whole then 203 + width bytes + 2 * width a + 3 * width b + width whole
  else 170 + width bytes + width a + width b + width whole

/-- Every part of the text that may be a page leaves room, when escaped, for the rest of the page. -/
def Fits (s : Stored) : Prop :=
  ∀ raw, textOf s.bytes = some raw → ∀ a b, Span raw a b →
    cost (between raw a b) + frame s.bytes.length raw.length a b ≤ READ_WHOLE_MAX

section Sizes

variable {s : Stored} {raw : Str} {n : Num} {fields offset limit : Bool}

theorem start_ofNat {k : Nat} (hk : k ≤ 2 ^ 53) : (Num.ofNat k).start = k := by
  rw [Num.ofNat, dif_pos hk, Num.start, Int.toNat_natCast]

theorem start_le (n : Num) : n.start ≤ 2 ^ 53 := by
  cases n with
  | nan => exact Nat.zero_le _
  | whole n h =>
    rw [Num.start]
    omega

theorem width_start {k : Nat} (hk : k ≤ 2 ^ 53) : width k ≤ 16 := width_le (by decide) (lt_of_le_of_lt hk (by decide))

/-- How long a page of a text is, from where it starts and ends. -/
theorem length_textPage {bytes : Nat} {p : Page} (hp : textPage bytes raw n (unusedOf fields offset limit) = p)
    (hdata : Paired p.data) : p.json.stringify.length = 58 + width bytes + width (pageStart raw n.start) + width p.to_ +
      cost p.data + (if p.to_ < raw.length then 60 + width (pageStart raw n.start) + 2 * width p.to_ + width raw.length
        else 27 + width raw.length) + cost (tailOf .text (unusedOf fields offset limit)) := by
  have hnote := note_eq p
  have hplain : Plain p.note := by
    rw [hnote, plain_append, ← hp]
    exact ⟨plain_paging _, (tail_unused .text fields offset limit).1⟩
  have hkind : p.kind.text_.length = 4 := by
    rw [← hp]
    change (js "text").length = 4
    rw [js_ofList]
    decide
  rw [length_json hdata hplain, hnote, cost_append, cost_paging_text (by rw [← hp]; rfl), hkind]
  subst hp
  change _ + width bytes + width (pageStart raw n.start) + _ + _ +
    ((if _ < raw.length then 60 + width (pageStart raw n.start) + _ + width raw.length else 27 + width raw.length) +
      cost (tailOf .text (unusedOf fields offset limit))) = _
  omega

/-- A page from inside a text: where it ends, and how long it is. -/
theorem size_text {bytes : Nat} {p : Page} (hp : textPage bytes raw n (unusedOf fields offset limit) = p)
    (hraw : Paired raw) (hin : pageStart raw n.start ≤ raw.length) :
    p.to_ = pageEnd raw (pageStart raw n.start) ∧ p.json.stringify.length + 85 =
      cost (between raw (pageStart raw n.start) (pageEnd raw (pageStart raw n.start))) +
        frame bytes raw.length (pageStart raw n.start) (pageEnd raw (pageStart raw n.start)) +
          cost (tailOf .text (unusedOf fields offset limit)) := by
  have hspan := pageEnd_span hraw hin (pageStart_good raw n.start)
  have hdata : p.data = between raw (pageStart raw n.start) (pageEnd raw (pageStart raw n.start)) := by rw [← hp]; rfl
  have hto : p.to_ = pageEnd raw (pageStart raw n.start) := by
    have hsum : p.to_ = pageStart raw n.start + p.data.length := by rw [← hp]; rfl
    have hle := hspan.le
    rw [hsum, hdata, length_between hspan.inside]
    omega
  have hpaired := paired_between hraw hspan.starts hspan.ends hspan.inside
  refine ⟨hto, ?_⟩
  rw [length_textPage hp (hdata ▸ hpaired), hto, hdata, frame]
  split <;> omega

/-- A page from past the end of a text is empty. -/
theorem size_past {bytes : Nat} {p : Page} (hp : textPage bytes raw n (unusedOf fields offset limit) = p)
    (hbytes : bytes ≤ 2 ^ 53) (hlength : raw.length ≤ 2 ^ 53) (hout : raw.length < pageStart raw n.start) :
    p.json.stringify.length ≤ 300 := by
  have hdata : p.data = [] := by
    rw [← hp]
    change between raw _ _ = []
    rw [between, List.drop_eq_nil_of_le]
    rw [List.length_take]
    omega
  have hto : p.to_ = pageStart raw n.start := by
    have hsum : p.to_ = pageStart raw n.start + p.data.length := by rw [← hp]; rfl
    rw [hsum, hdata]
    rfl
  have hstart : pageStart raw n.start ≤ 2 ^ 53 := by
    have := start_le n
    rw [pageStart_eq]
    split <;> omega
  have htail := (tail_unused .text fields offset limit).2
  have hw1 := width_start hbytes
  have hw2 := width_start hlength
  have hw3 := width_start hstart
  rw [length_textPage hp (hdata ▸ .nil), hto, hdata, if_neg (by omega)]
  change _ + 0 + _ + _ ≤ _
  dsimp only at htail
  omega

end Sizes

/-! ## The pages of bytes -/

section Bytes

variable {b : List UInt8} {body : List UInt8} {n : Option Num} {fields offset limit : Bool}

/-- `Buffer.from(s, "base64")`. -/
def fromBase64 (s : Str) : Option (List UInt8) := (atob s).map fun units => units.map (·.toUInt8)

theorem toBase64_some (b : List UInt8) : btoa (b.map (·.toUInt16)) = some (toBase64 b) := by
  have hall : (b.map (·.toUInt16)).all (fun u => decide (u < 256)) = true := by
    rw [List.all_eq_true]
    intro u hu
    obtain ⟨x, -, rfl⟩ := List.mem_map.1 hu
    have hlt := x.toNat_lt
    refine decide_eq_true (UInt16.lt_iff_toNat_lt.2 ?_)
    rw [UInt8.toNat_toUInt16]
    exact hlt
  unfold toBase64 btoa
  rw [if_pos hall]
  rfl

theorem fromBase64_toBase64 (b : List UInt8) : fromBase64 (toBase64 b) = some b := by
  have hback : (b.map (·.toUInt16)).map (·.toUInt8) = b := by
    rw [List.map_map]
    exact List.map_id'' (fun x => by simp) b
  rw [fromBase64, atob_btoa (toBase64_some b), Option.map_some, hback]

/-- Base64 is ASCII, and nothing of it is escaped. -/
theorem toBase64_units (b : List UInt8) : ∀ u ∈ toBase64 b, u < 128 ∧ escapeCost u = 1 := by
  have h := toBase64_some b
  unfold btoa at h
  split at h
  · rename_i hall
    have hlt : ∀ u ∈ b.map (·.toUInt16), u < 256 := fun u hu => of_decide_eq_true (List.all_eq_true.1 hall u hu)
    rw [Option.some.injEq] at h
    intro u hu
    rw [← h] at hu
    rcases List.mem_append.1 hu with hu | hu
    · obtain ⟨k, hk, rfl⟩ := mem_encodeSextets hlt hu
      interval_cases k <;> decide
    · rw [List.eq_of_mem_replicate hu]
      decide
  · cases h

theorem size_base64 (hbytes : body.length ≤ 2 ^ 53) :
    (base64Page body n (unusedOf fields offset limit)).json.stringify.length ≤ READ_WHOLE_MAX := by
  have hpage : BASE64_PAGE = 12288 := rfl
  have hmax : READ_WHOLE_MAX = 32768 := rfl
  generalize hp : base64Page body n (unusedOf fields offset limit) = p
  obtain ⟨hkind, hwhole, hlength, hunused, hfrom, hto, hle, hdata⟩ : p.kind = .base64 ∧ p.whole = body.length ∧
      p.bytes = body.length ∧ p.unused = unusedOf fields offset limit ∧ p.from_ ≤ body.length ∧ p.to_ ≤ body.length ∧
        p.to_ ≤ p.from_ + BASE64_PAGE ∧ p.data = toBase64 (between body p.from_ p.to_) := by
    subst hp
    exact ⟨rfl, rfl, rfl, rfl, Nat.min_le_right _ _, Nat.min_le_right _ _, Nat.min_le_left _ _, rfl⟩
  have hplain : Plain p.data := fun u hu => (toBase64_units _ u (hdata ▸ hu)).1
  have hcost : cost p.data ≤ 16400 := by
    have hb64 := length_btoa (toBase64_some (between body p.from_ p.to_))
    rw [List.length_map, length_between hto] at hb64
    rw [hdata, cost_length fun u hu => (toBase64_units _ u hu).2]
    omega
  obtain ⟨htail, htailCost⟩ := tail_unused p.kind fields offset limit
  have hnote : Plain p.note := by
    rw [note_eq, plain_append, hunused]
    exact ⟨plain_paging p, htail⟩
  have hpaging := cost_paging_base64 hkind
  have htext : p.kind.text_.length = 6 := by
    rw [hkind, Kind.text_, js_ofList]
    decide
  have hw1 := width_start hbytes
  have hw2 := width_start (hfrom.trans hbytes)
  have hw3 := width_start (hto.trans hbytes)
  rw [hwhole] at hpaging
  rw [hkind] at htailCost
  dsimp only at htailCost
  rw [length_json hplain.paired hnote, note_eq, cost_append, hunused, hlength, htext, hkind]
  omega

/-- A page of bytes from a place in them. -/
theorem base64Page_at {k : Nat} (hk : k ≤ body.length) (hbytes : body.length ≤ 2 ^ 53) (unused : List Str) :
    ∃ p, base64Page body (some (.ofNat k)) unused = p ∧ p.from_ = k ∧ p.to_ = min (k + BASE64_PAGE) body.length ∧
      p.whole = body.length ∧ p.data = toBase64 (between body k (min (k + BASE64_PAGE) body.length)) := by
  have hstart : min (Num.start (.ofNat k)) body.length = k := by rw [start_ofNat (hk.trans hbytes), Nat.min_eq_left hk]
  refine ⟨_, rfl, hstart, ?_, rfl, ?_⟩
  · change min (min (Num.start (.ofNat k)) body.length + BASE64_PAGE) body.length = _
    rw [hstart]
  · change toBase64 (between body (min (Num.start (.ofNat k)) body.length) (min (min (Num.start (.ofNat k)) body.length +
      BASE64_PAGE) body.length)) = _
    rw [hstart]

end Bytes

/-! ## Read back -/

/-- The call the note of a page of text gives: `read { ref, from }`. -/
def readText (s : Stored) (n : Nat) : Option Page := read s ⟨some (.ofNat n), none, false, false, false⟩

/-- The call the note of a page of bytes gives: `read { ref, encoding: "base64", from }`. -/
def readBase64 (s : Stored) (n : Nat) : Option Page := read s ⟨some (.ofNat n), some (js "base64"), false, false, false⟩

/-- An artifact is read back in pages: nothing is lost, and no page is over the line. -/
structure PagesBack (s : Stored) : Prop where
  text : ∀ raw, textOf s.bytes = some raw → raw ≠ [] → ∃ pages, Walk (readText s) Page.next 0 pages ∧
    pages.flatMap (·.data) = raw ∧ ∀ p ∈ pages, p.data ≠ [] ∧ p.to_ = p.from_ + p.data.length ∧
      ¬Splits raw p.from_ ∧ ¬Splits raw p.to_
  /-- Asked for from the middle of a pair, a page starts at the pair. -/
  pair : ∀ raw, textOf s.bytes = some raw → ∀ a : Args, a.encoding = none → ∀ n, a.from_ = some n → Splits raw n.start →
    ∃ p, read s a = some p ∧ p.from_ + 1 = n.start
  bytes : ∃ pages, Walk (readBase64 s) Page.next 0 pages ∧ (∀ p ∈ pages, (fromBase64 p.data).isSome = true) ∧
    pages.flatMap (fun p => (fromBase64 p.data).getD []) = s.bytes
  under : ∀ a p, read s a = some p → p.json.stringify.length ≤ READ_WHOLE_MAX

section Back

variable {s : Stored} {raw : Str}

theorem readText_at (htext : textOf s.bytes = some raw) {n : Nat} (hn : n < raw.length) (hgood : ¬Splits raw n) :
    ∃ p, readText s n = some p ∧ p.from_ = n ∧ p.to_ = pageEnd raw n ∧ p.whole = raw.length ∧
      p.data = between raw n (pageEnd raw n) := by
  have hlength := (textOf_length htext).trans s.fits
  have hstart : pageStart raw (Num.start (.ofNat n)) = n := by
    rw [start_ofNat (by omega), pageStart_eq, if_neg hgood]
  obtain ⟨p, hp⟩ : ∃ p, textPage s.bytes.length raw (.ofNat n) (unusedOf false false false) = p := ⟨_, rfl⟩
  have hto := (size_text hp (textOf_paired htext) (by rw [hstart]; omega)).1
  refine ⟨p, ?_, ?_, by rw [hto, hstart], by rw [← hp]; rfl, ?_⟩
  · unfold readText read
    dsimp only
    rw [htext]
    exact congrArg some hp
  · rw [← hp]
    exact hstart
  · rw [← hp]
    change between raw (pageStart raw (Num.start (.ofNat n))) _ = _
    rw [hstart]

theorem text_step (htext : textOf s.bytes = some raw) {n : Nat} (hn : n < raw.length ∧ ¬Splits raw n) :
    ∃ p, readText s n = some p ∧ Step raw Page.next (·.data) (fun n => n < raw.length ∧ ¬Splits raw n) n p := by
  obtain ⟨p, hread, -, hto, hwhole, hdata⟩ := readText_at htext hn.1 hn.2
  have hspan := pageEnd_span (textOf_paired htext) (by omega) hn.2
  refine ⟨p, hread, pageEnd raw n, hspan.le, hspan.inside, hdata, ?_⟩
  rw [Page.next, hto, hwhole]
  by_cases hend : pageEnd raw n < raw.length
  · exact .inr ⟨if_pos hend, pageEnd_lt hn.1, hend, hspan.ends⟩
  · have hinside := hspan.inside
    exact .inl ⟨if_neg hend, by omega⟩

theorem text_back (htext : textOf s.bytes = some raw) (hne : raw ≠ []) :
    ∃ pages, Walk (readText s) Page.next 0 pages ∧ pages.flatMap (·.data) = raw ∧
      ∀ p ∈ pages, p.data ≠ [] ∧ p.to_ = p.from_ + p.data.length ∧ ¬Splits raw p.from_ ∧ ¬Splits raw p.to_ := by
  have hzero : 0 < raw.length ∧ ¬Splits raw 0 := ⟨List.length_pos_iff.2 hne, fun h => absurd h.1 (Nat.lt_irrefl 0)⟩
  obtain ⟨pages, hwalk, hwhole, hpages⟩ := walk_whole (fun n hn => text_step htext hn) hzero
  refine ⟨pages, hwalk, hwhole, fun p hp => ?_⟩
  obtain ⟨n, hn, hread⟩ := hpages p hp
  obtain ⟨p', hread', hfrom, hto, -, hdata⟩ := readText_at htext hn.1 hn.2
  obtain rfl : p' = p := Option.some.inj (hread'.symm.trans hread)
  have hspan := pageEnd_span (textOf_paired htext) (by omega) hn.2
  have hlength : p'.data.length = pageEnd raw n - n := by rw [hdata, length_between hspan.inside]
  have hlt := pageEnd_lt hn.1
  refine ⟨fun hnil => ?_, by omega, hfrom ▸ hspan.starts, hto ▸ hspan.ends⟩
  rw [hnil] at hlength
  simp only [List.length_nil] at hlength
  omega

theorem pair_start (htext : textOf s.bytes = some raw) {a : Args} (hencoding : a.encoding = none) {n : Num}
    (hn : a.from_ = some n) (hsplits : Splits raw n.start) : ∃ p, read s a = some p ∧ p.from_ + 1 = n.start := by
  refine ⟨textPage s.bytes.length raw n a.unused, ?_, ?_⟩
  · unfold read
    rw [hencoding, htext, hn]
  · have hstart : (textPage s.bytes.length raw n a.unused).from_ = n.start - 1 := by
      change pageStart raw n.start = _
      rw [pageStart_eq, if_pos hsplits]
    have hpos := hsplits.1
    omega

theorem base64_step (s : Stored) {n : Nat} (hn : n ≤ s.bytes.length) :
    ∃ p, readBase64 s n = some p ∧ Step s.bytes Page.next (fun p => (fromBase64 p.data).getD [])
      (fun n => n ≤ s.bytes.length) n p := by
  have hpage : BASE64_PAGE = 12288 := rfl
  obtain ⟨p, hp, hfrom, hto, hwhole, hdata⟩ := base64Page_at hn s.fits (unusedOf false false false)
  refine ⟨p, ?_, min (n + BASE64_PAGE) s.bytes.length, by omega, Nat.min_le_right _ _, ?_, ?_⟩
  · unfold readBase64 read
    dsimp only
    rw [if_pos rfl, ← hp]
    rfl
  · dsimp only
    rw [hdata, fromBase64_toBase64]
    rfl
  · rw [Page.next, hto, hwhole]
    by_cases hend : min (n + BASE64_PAGE) s.bytes.length < s.bytes.length
    · exact .inr ⟨if_pos hend, by omega, Nat.min_le_right _ _⟩
    · exact .inl ⟨if_neg hend, by omega⟩

theorem bytes_back (s : Stored) : ∃ pages, Walk (readBase64 s) Page.next 0 pages ∧
    (∀ p ∈ pages, (fromBase64 p.data).isSome = true) ∧ pages.flatMap (fun p => (fromBase64 p.data).getD []) = s.bytes := by
  obtain ⟨pages, hwalk, hwhole, hpages⟩ := walk_whole (fun n hn => base64_step s hn) (Nat.zero_le s.bytes.length)
  refine ⟨pages, hwalk, fun p hp => ?_, hwhole⟩
  obtain ⟨n, hn, hread⟩ := hpages p hp
  obtain ⟨p', hp', -, -, -, hdata⟩ := base64Page_at hn s.fits (unusedOf false false false)
  have hread' : readBase64 s n = some p' := by
    unfold readBase64 read
    dsimp only
    rw [if_pos rfl, ← hp']
    rfl
  obtain rfl : p' = p := Option.some.inj (hread'.symm.trans hread)
  rw [hdata, fromBase64_toBase64]
  rfl

/-- What `read` answers is a page of bytes or of a text. -/
theorem read_cases {a : Args} {p : Page} (h : read s a = some p) :
    base64Page s.bytes a.from_ a.unused = p ∨
      ∃ raw n, textOf s.bytes = some raw ∧ a.from_ = some n ∧ textPage s.bytes.length raw n a.unused = p := by
  unfold read at h
  split at h
  · split at h
    · exact .inl (Option.some.inj h)
    · cases h
  · split at h
    · rename_i raw n htext hn
      exact .inr ⟨raw, n, htext, hn, Option.some.inj h⟩
    · cases h

theorem under_of_fits (h : Fits s) {a : Args} {p : Page} (hread : read s a = some p) :
    p.json.stringify.length ≤ READ_WHOLE_MAX := by
  rcases read_cases hread with rfl | ⟨raw, n, htext, -, hp⟩
  · exact size_base64 s.fits
  · by_cases hin : pageStart raw n.start ≤ raw.length
    · have hsize := (size_text hp (textOf_paired htext) hin).2
      have hfits := h raw htext _ _ (pageEnd_span (textOf_paired htext) hin (pageStart_good raw n.start))
      have htail := (tail_unused .text a.fields a.offset a.limit).2
      dsimp only at htail
      omega
    · have hpast := size_past hp s.fits ((textOf_length htext).trans s.fits) (by omega)
      exact hpast.trans (by decide)

/-- A part of the text that is too long, escaped, is a page over the line, when all three arguments were given. -/
theorem fits_of_under (h : ∀ a p, read s a = some p → p.json.stringify.length ≤ READ_WHOLE_MAX) : Fits s := by
  intro raw htext a b hspan
  have hraw := textOf_paired htext
  have hlength := (textOf_length htext).trans s.fits
  have hle := hspan.le.trans hspan.inside
  have hstart : pageStart raw (Num.start (.ofNat a)) = a := by
    rw [start_ofNat (by omega), pageStart_eq, if_neg hspan.starts]
  obtain ⟨p, hp⟩ : ∃ p, textPage s.bytes.length raw (.ofNat a) (unusedOf true true true) = p := ⟨_, rfl⟩
  have hsize := (size_text hp hraw (by rwa [hstart])).2
  have hread : read s ⟨some (.ofNat a), none, true, true, true⟩ = some p := by
    unfold read
    dsimp only
    rw [htext]
    exact congrArg some hp
  have hunder := h _ _ hread
  rw [hstart, tail_all, ← hspan.eq hraw] at hsize
  omega

end Back

/-- An artifact is read back in pages, none over the line, exactly when its text leaves room for the escapes. -/
theorem pages_back (s : Stored) : PagesBack s ↔ Fits s :=
  ⟨fun h => fits_of_under h.under, fun h => ⟨fun _ htext hne => text_back htext hne,
    fun _ htext _ hencoding _ hn hsplits => pair_start htext hencoding hn hsplits, bytes_back s,
    fun _ _ hread => under_of_fits h hread⟩⟩

/-! ## A text of quotes -/

theorem signature_head {b : List UInt8} {at_ : Nat} {sig : Str} {u : UInt16} (hsig : sig.head? = some u)
    (hne : (b.getD at_ 0).toNat ≠ u.toNat) : signature b at_ sig = false := by
  cases sig with
  | nil => cases hsig
  | cons v sig =>
    obtain rfl := Option.some.inj hsig
    have hfirst : ((b.getD (at_ + 0) 0).toNat == v.toNat) = false := beq_false_of_ne hne
    rw [signature, List.zipIdx_cons, List.all_cons]
    dsimp only
    rw [hfirst, Bool.false_and, Bool.and_false]

section Quotes

variable {n : Nat}

theorem getD_quotes {k : Nat} (h : k < n) : (List.replicate n (0x22 : UInt8)).getD k 0 = 0x22 := by
  rw [List.getD_eq_getElem?_getD, List.getElem?_replicate, if_pos h]
  rfl

theorem magic_heads : magic.all (fun p => decide (p.1 < 258) && p.2.head?.any fun u => decide (u.toNat ≠ 0x22)) = true := by
  decide

theorem magicType_quotes (hn : 258 ≤ n) : hasMagicType (List.replicate n 0x22) = false := by
  have hhead {at_ : Nat} (hat : at_ < 258) {sig : Str} (hsig : (sig.head?.any fun u => decide (u.toNat ≠ 0x22)) = true) :
      signature (List.replicate n 0x22) at_ sig = false := by
    cases hu : sig.head? with
    | none =>
      rw [hu] at hsig
      cases hsig
    | some u =>
      rw [hu] at hsig
      have hne : u.toNat ≠ 0x22 := of_decide_eq_true hsig
      refine signature_head hu ?_
      rw [getD_quotes (by omega)]
      exact Ne.symm hne
  have hmagic : ∀ p ∈ magic, signature (List.replicate n 0x22) p.1 p.2 = false := by
    intro p hp
    have hall := List.all_eq_true.1 magic_heads p hp
    rw [Bool.and_eq_true] at hall
    exact hhead (of_decide_eq_true hall.1) hall.2
  have hzero : (List.replicate n (0x22 : UInt8)).getD 0 0 = 0x22 := getD_quotes (by omega)
  have hgif7 := hhead (by decide : 0 < 258) (by decide : ((js "GIF87a").head?.any fun u => decide (u.toNat ≠ 0x22)) = true)
  have hgif9 := hhead (by decide : 0 < 258) (by decide : ((js "GIF89a").head?.any fun u => decide (u.toNat ≠ 0x22)) = true)
  have hriff := hhead (by decide : 0 < 258) (by decide : ((js "RIFF").head?.any fun u => decide (u.toNat ≠ 0x22)) = true)
  rw [hasMagicType, Bool.or_eq_false_iff, List.any_eq_false]
  refine ⟨?_, fun p hp => Bool.eq_false_iff.1 (hmagic p hp)⟩
  rw [sniffsImage, hzero, hgif7, hgif9, hriff]
  simp

theorem nul_quotes (n : Nat) : hasEarlyNul (List.replicate n 0x22) = false := by
  rw [hasEarlyNul, List.contains_eq_mem, decide_eq_false_iff_not]
  intro h
  have := List.eq_of_mem_replicate (List.mem_of_mem_take h)
  cases this

theorem utf8_quotes (hn : 0 < n) : strictUtf8 (List.replicate n 0x22) = some (List.replicate n (unit '"')) := by
  have hflat {A B : Type} (f : A → List B) (a : A) (b : B) (hf : f a = [b]) (n : Nat) :
      (List.replicate n a).flatMap f = List.replicate n b := by
    rw [List.flatMap_replicate, hf, List.flatten_replicate_singleton]
  have hbytes : (List.replicate n '"').utf8Encode = ByteArray.mk (List.replicate n 0x22).toArray := by
    refine ByteArray.ext ?_
    rw [List.utf8Encode, List.data_toByteArray, hflat String.utf8EncodeChar '"' 0x22 (by decide)]
  have hdecode : utf8Chars (List.replicate n 0x22) = some (List.replicate n '"') := by
    rw [utf8Chars, ← hbytes, List.utf8Decode?_utf8Encode]
    rfl
  have hbom : withoutBom (List.replicate n '"') = List.replicate n '"' := by
    obtain ⟨m, rfl⟩ : ∃ m, n = m + 1 := ⟨n - 1, by omega⟩
    exact if_neg (by rw [List.replicate_succ, List.head?_cons]; decide)
  rw [strictUtf8, hdecode, Option.map_some, hbom, hflat unitsOf '"' (unit '"') (by decide)]

theorem textOf_quotes (hn : 258 ≤ n) : textOf (List.replicate n 0x22) = some (List.replicate n (unit '"')) := by
  rw [textOf, magicType_quotes hn, nul_quotes, if_neg Bool.false_ne_true, if_neg Bool.false_ne_true, utf8_quotes (by omega)]

end Quotes

/-- A text of as many quotes as a page has characters. -/
def quotes : Stored := ⟨List.replicate READ_PAGE 0x22, by rw [List.length_replicate]; decide⟩

theorem not_pages_back : ¬PagesBack quotes := by
  have hno (k : Nat) : ¬Splits (List.replicate READ_PAGE (unit '"')) k := by
    rintro ⟨-, hhigh, -⟩
    rw [List.getD_eq_getElem?_getD, List.getElem?_replicate] at hhigh
    split at hhigh <;> cases hhigh
  have hlength : (List.replicate READ_PAGE (unit '"')).length = READ_PAGE := List.length_replicate
  have hspan : Span (List.replicate READ_PAGE (unit '"')) 0 READ_PAGE :=
    ⟨Nat.zero_le _, hlength.ge, hno _, hno _, .inl ⟨hlength.symm, by omega⟩⟩
  intro h
  have hfits := fits_of_under h.under _ (textOf_quotes (by decide)) 0 READ_PAGE hspan
  have hwhole : between (List.replicate READ_PAGE (unit '"')) 0 READ_PAGE = List.replicate READ_PAGE (unit '"') := by
    rw [between, List.drop_zero, List.take_of_length_le hlength.le]
  have hcost : cost (List.replicate READ_PAGE (unit '"')) = READ_PAGE * 2 := by
    rw [cost, List.map_replicate, List.sum_replicate_nat, show escapeCost (unit '"') = 2 by decide]
  have hframe : 170 ≤ frame quotes.bytes.length READ_PAGE 0 READ_PAGE := by
    rw [frame, if_neg (Nat.lt_irrefl _)]
    omega
  rw [hwhole, hcost, hlength] at hfits
  have hpage : READ_PAGE = 16384 := rfl
  have hmax : READ_WHOLE_MAX = 32768 := rfl
  omega

end Antiproton.Artifacts
