import Antiproton.Core.Base64
import Antiproton.Core.JsonParse
import Antiproton.Artifacts.Text
import Antiproton.Lib.Paging

/-!
# Antiproton.Artifacts.Read

An artifact read back in pages (`read` of `artifactsPlugin`, `src/plugins/artifacts.ts`): the characters of a text from
`from` on, or the bytes of anything from `from` on as base64. Only what comes in pages is here; a read of a list or of a
value, and the summary of bytes that are no text, are not.

* `textPage_step`, `base64Page_step`: what one page is.
* `read_pages`: the pages are the artifact, and each stays under the line exactly when `Fits` holds of it.
-/

namespace Antiproton.Artifacts

open Js Slices

def READ_PAGE : Nat := 16 * 1024

def READ_WHOLE_MAX : Nat := 32 * 1024

def BASE64_PAGE : Nat := 12 * 1024

/-! ## A page -/

/-- `Number(x)`: not a number, or by its floor a whole number that the language holds exactly. -/
inductive Num where
  | nan
  | whole (n : Int) (h : n.natAbs ≤ 2 ^ 53)

/-- `Math.max(0, Math.floor(x) || 0)`. -/
def Num.start : Num → Nat
  | nan => 0
  | whole n _ => n.toNat

/-- A place in an artifact, as a number. -/
def Num.ofNat (n : Nat) : Num := if h : n ≤ 2 ^ 53 then .whole n (by simpa using h) else .nan

/-- The arguments of `read` after `ref`: of the ones that page a list, whether each is given. -/
structure Args where
  from_ : Option Num
  encoding : Option Str
  fields : Bool
  offset : Bool
  limit : Bool

/-- `fields`, `offset` and `limit`, those that are given. -/
def unusedOf (fields offset limit : Bool) : List Str :=
  (if fields then [js "fields"] else []) ++ (if offset then [js "offset"] else []) ++ if limit then [js "limit"] else []

def Args.unused (a : Args) : List Str := unusedOf a.fields a.offset a.limit

/-- A stored artifact; a typed array is no longer than the language can count. -/
structure Stored where
  bytes : List UInt8
  fits : bytes.length ≤ 2 ^ 53

inductive Kind where
  | text
  | base64
deriving DecidableEq

/-- A page: what of the whole it is, and the note that goes with it. -/
structure Page where
  kind : Kind
  bytes : Nat
  from_ : Nat
  to_ : Nat
  data : Str
  /-- Of how many characters, or bytes, the page is. -/
  whole : Nat
  unused : List Str

/-- The `from` the note gives, where it gives one. -/
def Page.next (p : Page) : Option Nat := if p.to_ < p.whole then some p.to_ else none

def Page.paging (p : Page) : Str :=
  match p.kind with
  | .text =>
    if p.to_ < p.whole then
      js "showing characters " ++ decimal p.from_ ++ js "-" ++ decimal p.to_ ++ js " of " ++ decimal p.whole ++
        js "; continue with read \x7b ref, from: " ++ decimal p.to_ ++ js " \x7d"
    else js "end of result (" ++ decimal p.whole ++ js " characters)"
  | .base64 =>
    if p.to_ < p.whole then
      js "showing bytes " ++ decimal p.from_ ++ js "-" ++ decimal p.to_ ++ js " of " ++ decimal p.whole ++
        js "; continue with read \x7b ref, encoding: \"base64\", from: " ++ decimal p.to_ ++ js " \x7d"
    else js "end of artifact (" ++ decimal p.whole ++ js " bytes)"

def Kind.notApplied : Kind → Str
  | text => js " page a list and do not apply with from, so they were not used"
  | base64 => js " page a list and do not apply with encoding, so they were not used"

def Page.note (p : Page) : Str :=
  if p.unused = [] then p.paging else p.paging ++ js "; " ++ join (js ", ") p.unused ++ p.kind.notApplied

/-- The note's last part, where arguments were not used. -/
def tailOf (kind : Kind) (unused : List Str) : Str :=
  if unused = [] then [] else js "; " ++ join (js ", ") unused ++ kind.notApplied

def Kind.text_ : Kind → Str
  | text => js "text"
  | base64 => js "base64"

/-- The field the data is under. -/
def Kind.field : Kind → Str
  | text => js "text"
  | base64 => js "data"

def Page.json (p : Page) : Json :=
  .obj [(js "kind", .str p.kind.text_), (js "bytes", .num (decimal p.bytes)), (js "from", .num (decimal p.from_)),
    (js "to", .num (decimal p.to_)), (p.kind.field, .str p.data), (js "note", .str p.note)]

/-- A page starts at the pair when it is asked for from the middle of one. -/
def pageStart (raw : Str) (from_ : Nat) : Nat :=
  if from_ > 0 ∧ from_ < raw.length ∧ isLow (raw.getD from_ 0) = true ∧ isHigh (raw.getD (from_ - 1) 0) = true then from_ - 1
  else from_

/-- A page stops before a pair it would cut. -/
def pageEnd (raw : Str) (from_ : Nat) : Nat :=
  let end_ := min (from_ + READ_PAGE) raw.length
  if end_ < raw.length ∧ end_ - 1 > from_ ∧ isHigh (raw.getD (end_ - 1) 0) = true then end_ - 1 else end_

def textPage (bytes : Nat) (raw : Str) (n : Num) (unused : List Str) : Page :=
  let from_ := pageStart raw n.start
  let text := between raw from_ (pageEnd raw from_)
  ⟨.text, bytes, from_, from_ + text.length, text, raw.length, unused⟩

/-- `Buffer.from(b).toString("base64")`. -/
def toBase64 (b : List UInt8) : Str := (btoa (b.map (·.toUInt16))).getD []

def base64Page (body : List UInt8) (n : Option Num) (unused : List Str) : Page :=
  let from_ := min ((n.map Num.start).getD 0) body.length
  let to_ := min (from_ + BASE64_PAGE) body.length
  ⟨.base64, body.length, from_, to_, toBase64 (between body from_ to_), body.length, unused⟩

/-- What `read` answers where it answers a page. -/
def read (s : Stored) (a : Args) : Option Page :=
  match a.encoding with
  | some encoding => if encoding = js "base64" then some (base64Page s.bytes a.from_ a.unused) else none
  | none =>
    match textOf s.bytes, a.from_ with
    | some raw, some n => some (textPage s.bytes.length raw n a.unused)
    | _, _ => none

/-! ## How long a page is -/

/-- How many digits a number takes. -/
def width (n : Nat) : Nat := (decimal n).length

section Sizes

variable {p : Page} {n : Nat}

theorem digit_decimal (n : Nat) : ∀ u ∈ decimal n, isDigit u = true := by
  obtain ⟨c, rest, heq, hd, -⟩ := decimal_nat n
  intro u hu
  exact hd u (heq ▸ hu)

theorem plain_decimal (n : Nat) : Plain (decimal n) := by
  intro u hu
  have hd := digit_decimal n u hu
  simp only [isDigit, Bool.and_eq_true, decide_eq_true_eq] at hd
  exact UInt16.lt_of_le_of_lt hd.2 (by decide)

theorem cost_decimal (n : Nat) : cost (decimal n) = width n := by
  refine cost_length fun u hu => ?_
  have hd := digit_decimal n u hu
  simp only [isDigit, Bool.and_eq_true, decide_eq_true_eq, UInt16.le_iff_toNat_le] at hd
  obtain ⟨hge, hle⟩ := hd
  refine escapeCost_one ((by decide : 32 ≤ 48).trans hge) ?_ ?_
  · rintro rfl
    exact absurd hge (by decide)
  · rintro rfl
    exact absurd hle (by decide)

theorem width_le {k : Nat} (hk : 0 < k) (h : n < 10 ^ k) : width n ≤ k := by
  have hlength : width n = (Nat.toDigits 10 n).length := by
    change (js (toString n)).length = _
    rw [units_nat, List.length_map]
  rw [hlength]
  exact (Nat.length_toDigits_le_iff (by decide) hk).2 h

theorem note_eq (p : Page) : p.note = p.paging ++ tailOf p.kind p.unused := by
  unfold Page.note tailOf
  split
  · rw [List.append_nil]
  · rw [List.append_assoc, List.append_assoc, List.append_assoc]

theorem plain_paging (p : Page) : Plain p.paging := by
  unfold Page.paging
  split
  · split
    · simp only [plain_append, plain_decimal, and_true]
      rw [js_ofList, js_ofList, js_ofList, js_ofList, js_ofList]
      decide
    · simp only [plain_append, plain_decimal, and_true]
      rw [js_ofList, js_ofList]
      decide
  · split
    · simp only [plain_append, plain_decimal, and_true]
      rw [js_ofList, js_ofList, js_ofList, js_ofList, js_ofList]
      decide
    · simp only [plain_append, plain_decimal, and_true]
      rw [js_ofList, js_ofList]
      decide

/-- Pages of a text, whose note has no quotes. -/
theorem cost_paging_text (hkind : p.kind = .text) : cost p.paging =
    if p.to_ < p.whole then 60 + width p.from_ + 2 * width p.to_ + width p.whole else 27 + width p.whole := by
  have hshowing : cost (js "showing characters ") + cost (js "-") + cost (js " of ") +
      cost (js "; continue with read \x7b ref, from: ") + cost (js " \x7d") = 60 := by
    rw [js_ofList, js_ofList, js_ofList, js_ofList, js_ofList]
    decide
  have hend : cost (js "end of result (") + cost (js " characters)") = 27 := by
    rw [js_ofList, js_ofList]
    decide
  unfold Page.paging
  rw [hkind]
  dsimp only
  split
  · simp only [cost_append, cost_decimal]
    omega
  · simp only [cost_append, cost_decimal]
    omega

theorem cost_paging_base64 (hkind : p.kind = .base64) :
    cost p.paging ≤ 100 + width p.from_ + 2 * width p.to_ + width p.whole := by
  have hshowing : cost (js "showing bytes ") + cost (js "-") + cost (js " of ") +
      cost (js "; continue with read \x7b ref, encoding: \"base64\", from: ") + cost (js " \x7d") ≤ 100 := by
    rw [js_ofList, js_ofList, js_ofList, js_ofList, js_ofList]
    decide
  have hend : cost (js "end of artifact (") + cost (js " bytes)") ≤ 100 := by
    rw [js_ofList, js_ofList]
    decide
  unfold Page.paging
  rw [hkind]
  dsimp only
  split
  · simp only [cost_append, cost_decimal]
    omega
  · simp only [cost_append, cost_decimal]
    omega

theorem plain_notApplied (kind : Kind) : Plain kind.notApplied := by
  cases kind <;> rw [Kind.notApplied, js_ofList] <;> decide

theorem cost_notApplied (kind : Kind) : cost kind.notApplied = match kind with | .text => 62 | .base64 => 66 := by
  cases kind <;> rw [Kind.notApplied, js_ofList] <;> decide

/-- The names of the arguments that were not used are longest when all three were given. -/
theorem cost_unused (fields offset limit : Bool) : Plain (join (js ", ") (unusedOf fields offset limit)) ∧
    cost (join (js ", ") (unusedOf fields offset limit)) ≤ 21 := by
  unfold unusedOf
  rw [js_ofList, js_ofList, js_ofList, js_ofList]
  cases fields <;> cases offset <;> cases limit <;> decide

theorem tail_unused (kind : Kind) (fields offset limit : Bool) :
    Plain (tailOf kind (unusedOf fields offset limit)) ∧
      cost (tailOf kind (unusedOf fields offset limit)) ≤ match kind with | .text => 85 | .base64 => 89 := by
  have hsemi : Plain (js "; ") ∧ cost (js "; ") = 2 := by
    rw [js_ofList]
    decide
  obtain ⟨hplain, hcost⟩ := cost_unused fields offset limit
  unfold tailOf
  split
  · exact ⟨fun u hu => (nomatch hu), Nat.zero_le _⟩
  · rw [plain_append, plain_append, cost_append, cost_append, cost_notApplied, hsemi.2]
    refine ⟨⟨⟨hsemi.1, hplain⟩, plain_notApplied kind⟩, ?_⟩
    cases kind <;> dsimp only <;> omega

theorem tail_all : cost (tailOf .text (unusedOf true true true)) = 85 := by
  have hsemi : cost (js "; ") = 2 := by
    rw [js_ofList]
    decide
  have hwords : cost (join (js ", ") (unusedOf true true true)) = 21 := by
    unfold unusedOf
    rw [js_ofList, js_ofList, js_ofList, js_ofList]
    decide
  rw [tailOf, if_neg (by simp [unusedOf]), cost_append, cost_append, cost_notApplied, hsemi, hwords]
  rfl

/-- How long the JSON text of a page is. -/
theorem length_json (hdata : Paired p.data) (hnote : Plain p.note) : p.json.stringify.length =
    54 + p.kind.text_.length + width p.bytes + width p.from_ + width p.to_ + cost p.data + cost p.note := by
  have hkind : (quote p.kind.text_).length = p.kind.text_.length + 2 := by
    cases p.kind <;> rw [Kind.text_, js_ofList] <;> decide
  have hfield : (quote p.kind.field).length = 6 := by
    cases p.kind <;> rw [Kind.field, js_ofList] <;> decide
  have hkeys : (quote (js "kind")).length + (quote (js "bytes")).length + (quote (js "from")).length +
      (quote (js "to")).length + (quote (js "note")).length = 29 := by
    rw [js_ofList, js_ofList, js_ofList, js_ofList, js_ofList]
    decide
  simp only [Page.json, Json.stringify, Json.stringifyFields, List.length_append, List.length_cons, List.length_nil, join,
    length_quote hdata, length_quote hnote.paired, hkind, hfield, width]
  omega

end Sizes

end Antiproton.Artifacts
