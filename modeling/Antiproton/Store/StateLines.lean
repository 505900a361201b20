import Antiproton.Store.Schema

/-!
# Antiproton.Store.StateLines

The line rules of an agent's text documents (`src/store/state-lines.ts`): which lines a full
document gives up, which text a revision touches, where an insert lands, and what each refusal says.
A document is a string of code units, and every length is the language's `.length`.
-/

namespace Antiproton

open Js

/-- A thrown error: its sentence, and the fields a refusal carries beside it. -/
structure JsError where
  message : String
  code : Option String
  size : Option Nat
  modelOnlyText : Option Str
deriving DecidableEq, Repr

/-- `new Error(message)`. -/
def JsError.ofMessage (message : String) : JsError := ⟨message, none, none, none⟩

/-- `WhenFull`. -/
inductive WhenFull where
  | drop | refuse
deriving DecidableEq, Repr

/-- A number argument: a whole number, or anything else by its text. -/
inductive JsNumber where
  | int (n : Int)
  | other (text : String)
deriving DecidableEq, Repr

def JsNumber.text : JsNumber → String
  | .int n => toString n
  | .other text => text

def cr : UInt16 := 13
def lf : UInt16 := 10

/-- What a value that is not text is, in a refusal. -/
def Json.kindText : Json → String
  | .null => "null"
  | .arr _ => "a list"
  | .obj _ => "an object"
  | .bool _ => "a boolean"
  | .num _ => "a number"
  | .str _ => "a string"

/-- `documentText`: the text an edit may change, or why there is none. -/
def documentText (key : String) (prior : Option (Json × Option String)) (verb : String) :
    Except JsError Str :=
  match prior with
  | none => .ok []
  | some (value, ref) =>
    if ref.any (· ≠ "") then
      .error (.ofMessage s!"`{key}` is too large to {verb}; read it and put a new one")
    else
      match value with
      | .str s => .ok s
      | v => .error (.ofMessage (s!"`{key}` holds {v.kindText}, " ++
          s!"not a text document, so it has no lines to {verb}; it is unchanged. Use another key, or put a new value here"))

/-- Whether a line says nothing. -/
def blank (line : Str) : Bool := line.all isSpace

/-- Whether `text` is more than one line. -/
def multiline (text : Str) : Bool := text.any fun u => u == cr || u == lf

/-- `l.replace(/\r$/, "")`. -/
def dropCr (l : Str) : Str := if l.getLast? = some cr then l.dropLast else l

/-- `LISTED_LINES_MAX`. -/
def listedLinesMax : Nat := 50

/-- `LISTED_LINE_CHARS`. -/
def listedLineChars : Nat := 200

/-- One line of the listing: its number, and as much of it as is shown. -/
def listedLine (n : Nat) (l : Str) : Str :=
  js s!"{n}: " ++
    if l.length ≤ listedLineChars then l
    else
      l.take (if (l[listedLineChars - 1]?).any isHigh then listedLineChars - 1 else listedLineChars) ++ js "…"

/-- `listing`: a full document's lines, as its refusal lists them. -/
def listing (key : String) (lines : List Str) : Option Str :=
  let said := (lines.zipIdx.map fun x => (x.2 + 1, dropCr x.1)).filter fun x => !blank x.2
  if said.isEmpty then none
  else
    let shown := said.take listedLinesMax
    let cut := shown.any fun x => listedLineChars < x.2.length
    let more := said.length - shown.length
    let header := js s!"`{key}` now, by line number" ++
      js (if cut then " (a line ending in … is cut; a part of it without the … still works as `revise`'s `old`):"
        else ":")
    let noun := if more = 1 then "line" else "lines"
    let tail := if 0 < more then [js s!"… and {more} more {noun}; `get` reads all of it"] else []
    some (join [lf] ([header] ++ shown.map (fun x => listedLine x.1 x.2) ++ tail))

/-- The call a refusal speaks to. -/
inductive DocumentVerb where
  | remember | insert
deriving DecidableEq, Repr

def DocumentVerb.text : DocumentVerb → String
  | .remember => "remember"
  | .insert => "insert"

/-- `documentFull`. -/
def documentFull (key : String) (size after max short : Nat) (text : Str) (lines : List Str)
    (verb : DocumentVerb) : JsError where
  message :=
    let code := s!"{key}_full"
    let what := if multiline text then "text" else "line"
    let added := (after : Int) - size
    s!"{code}: `{key}` is full: it is {size} characters, this {what} adds {added} " ++
    s!"to make it {after}, and it holds at most {max}, so nothing was written. " ++
    (if verb = .insert then "An insert never drops lines to make room"
      else "It keeps its oldest lines rather than dropping them") ++
    s!": free at least {short} characters first, by deleting or shortening a line that is no longer true " ++
    s!"with `revise` or dropping the whole document with `forget`, then {verb.text} this again. If what has to go is blank " ++
    "lines or layout, `put` the document again, shorter, instead"
  code := some s!"{key}_full"
  size := some size
  modelOnlyText := listing key lines

/-- `documentOverCap`. -/
def documentOverCap (key : String) (size max : Nat) (lines : List Str) : JsError where
  message :=
    s!"{key}_over_cap: `{key}` is {size} characters; its cap is {max}, and it was already over before this write, so " ++
    "nothing was written. What still works: `revise` and `forget` can shrink it (on a document over its cap, a " ++
    "`revise` is refused only if it makes it longer), and so can a `put` of a shorter one"
  code := some s!"{key}_over_cap"
  size := some size
  modelOnlyText := listing key lines

/-- `tooLong`. -/
def tooLong (key : String) (size : Nat) (text : Str) (max : Nat) (verb : Option DocumentVerb)
    (lines : List Str) : JsError where
  message :=
    (if verb.isSome then s!"{key}_full: " else "") ++
    (if multiline text then "that text" else "that line") ++ s!" is {text.length} characters; " ++
    s!"a document holds at most {max}, so nothing was written" ++
    match verb with
    | some v => s!". Shorten this, or add it in several smaller pieces, one `{v.text}` per " ++
        (if v = .insert then "piece" else "line")
    | none => ": it is too long; shorten it, or add it in smaller pieces"
  code := verb.map fun _ => s!"{key}_full"
  size := verb.map fun _ => size
  modelOnlyText := verb.bind fun _ => listing key lines

/-- The line break a document is written with. -/
def eolOf (doc : Str) : Str := if includes [cr, lf] doc then [cr, lf] else [lf]

/-- Lines given up from the head while the document is over `max`: how many, and the length left.
With `onlyBlank`, a line that says something ends it. -/
def giveUp (onlyBlank : Bool) (max : Int) : List Str → Int → Nat × Int
  | [], length => (0, length)
  | line :: lines, length =>
    if max < length && (!onlyBlank || blank line) then
      let r := giveUp onlyBlank max lines (length - (line.length + 1))
      (r.1 + 1, r.2)
    else (0, length)

/-- `appendLines`: the text as the document's last line, and the lines dropped to make room. -/
def appendLines (key : String) (before text : Str) (max : Nat) (whenFull : WhenFull) :
    Except JsError (Str × List Str) :=
  let size := before.length
  let eol := eolOf before
  let before := if endsWith eol before then before.take (before.length - eol.length) else before
  let lines := splitOn lf before
  if whenFull = .refuse ∧ max < size then .error (documentOverCap key size max lines)
  else if max < text.length then
    .error (tooLong key size text max (if whenFull = .refuse then some .remember else none) lines)
  else if before.isEmpty then .ok (text, [])
  else
    let length : Int := before.length + eol.length + text.length
    -- Blank lines at the head go for free, so what a refusing document is short of is counted past them.
    let free := if max < length ∧ whenFull = .refuse then giveUp true max lines length else (0, length)
    if max < length ∧ whenFull = .refuse ∧ max < free.2 then
      .error (documentFull key size length.toNat max (free.2 - max).toNat text lines .remember)
    else
      let dropped := giveUp false max (lines.drop free.1) free.2
      let i := free.1 + dropped.1
      let i := if 0 < i then i + ((lines.drop i).takeWhile blank).length else i
      let rest := lines.drop i
      .ok (if rest.isEmpty then text else join [lf] rest ++ eol ++ text,
        ((lines.take i).filter fun l => !blank l).map dropCr)

/-- `withEol`: the line breaks of `text` made the document's. -/
def toCrLf : Str → Str
  | [] => []
  | u :: rest =>
    if u = lf then cr :: lf :: toCrLf rest
    else if u = cr && rest.head? = some lf then toCrLf rest
    else u :: toCrLf rest

def withEol (text eol : Str) : Str := if eol = [cr, lf] then toCrLf text else text

/-- `unCr`: a text as a reply quotes it. -/
def unCr : Str → Str
  | [] => []
  | u :: rest => if u = cr && rest.head? = some lf then unCr rest else u :: unCr rest

/-- `lineAt`: the line, from 1, that a place of the document falls on. -/
def lineAt (doc : Str) (at_ : Nat) : Nat := (doc.take at_).count lf + 1

/-- What a revision answers besides the document's size. -/
structure Revised where
  line : Nat
  lastLine : Nat
  was : Str
  now : Option Str
deriving DecidableEq, Repr

/-- Where deleting whole lines also takes a line break with it. -/
def deletionSpan (doc eol o : Str) (start : Nat) : Nat × Nat :=
  let stop := start + o.length
  let startsLine := start = 0 || doc[start - 1]? = some lf
  let endsLine := stop = doc.length || startsWith eol (doc.drop stop)
  let breaks := fun u : Option UInt16 => u = some cr || u = some lf
  if startsLine && endsLine && !(breaks o.head? || breaks o.getLast?) then
    if stop < doc.length then (start, stop + eol.length)
    else if 0 < start then (start - (if endsWith eol (doc.take start) then eol.length else 1), stop)
    else (start, stop)
  else (start, stop)

/-- `reviseText`: the one occurrence of `old` replaced, or removed. -/
def reviseText (key : String) (doc old : Str) (next : Option Str) (max : Nat) :
    Except JsError (Str × Revised) :=
  if old.isEmpty then .error (.ofMessage "`old` is empty; give the exact text to change, as it is now")
  else
    let eol := eolOf doc
    let o := withEol old eol
    let n := withEol (next.getD []) eol
    match occurrences o doc with
    | [] => .error (.ofMessage (
        s!"`old` occurs nowhere in `{key}` (0 matches), so nothing was changed. It must be the text exactly as it is now, " ++
        "spaces and line breaks included; `get` reads it"))
    | [start] =>
      let span := if n.isEmpty then deletionSpan doc eol o start else (start, start + o.length)
      let kept := doc.take span.1 ++ n ++ doc.drop span.2
      if max < kept.length ∧ doc.length < kept.length then
        if max < doc.length then .error (documentOverCap key doc.length max (splitOn lf doc))
        else .error { message :=
            s!"that would make `{key}` {kept.length} characters; a document holds at most {max}, so nothing was changed"
                      code := none, size := some doc.length, modelOnlyText := none }
      else
        .ok (kept, { line := lineAt doc start, lastLine := lineAt doc (start + (o.length - 1))
                     was := unCr o, now := if n.isEmpty then none else some (unCr n) })
    | starts =>
      let lines := (starts.map (lineAt doc)).eraseDups
      let shown := ", ".intercalate ((lines.take 10).map toString) ++
        (if 10 < lines.length then s!", and {lines.length - 10} more" else "")
      let plural := if lines.length = 1 then "" else "s"
      .error (.ofMessage (
        s!"`old` occurs {starts.length} times in `{key}`, starting on line{plural} {shown}; " ++
        "nothing was changed. Give more of the text around the one you mean, so that it occurs once"))

/-- `insertLines`: the text as its own lines after line `afterLine`. -/
def insertLines (key : String) (before : Str) (afterLine : JsNumber) (text : Str) (max : Nat) :
    Except JsError (Str × Nat) :=
  let eol := eolOf before
  let trailing := endsWith eol before
  let body := if trailing then before.take (before.length - eol.length) else before
  let lines := if before.isEmpty then [] else splitOn lf body
  let noun := if lines.length = 1 then "line" else "lines"
  let outside := JsError.ofMessage (
    s!"`after_line` is {afterLine.text}, and `{key}` has {lines.length} {noun}, so it must be " ++
    s!"a whole number from 0 (the top) to {lines.length} (the end); nothing was written")
  match afterLine with
  | .other _ => .error outside
  | .int at_ =>
    if at_ < 0 ∨ (lines.length : Int) < at_ then .error outside
    else
      let at_ := at_.toNat
      let t := withEol text eol
      if max < before.length then .error (documentOverCap key before.length max lines)
      else if max < t.length then .error (tooLong key before.length text max (some .insert) lines)
      else
        let head := join [lf] (lines.take at_)
        let kept :=
          (if at_ = 0 then (if lines.isEmpty then t else t ++ eol ++ body)
            else if at_ = lines.length then head ++ eol ++ t
            else head ++ [lf] ++ t ++ eol ++ join [lf] (lines.drop at_)) ++
          (if trailing then eol else [])
        if max < kept.length ∧ before.length < kept.length then
          .error (documentFull key before.length kept.length max (kept.length - max) text lines .insert)
        else .ok (kept, at_ + 1)

/-! ## The store's byte accounting -/

/-- `storedBytes`: the length of the value's JSON. -/
def storedBytes (value : Json) : Nat := value.stringify.length

/-- `storeFull`. -/
def storeFull (max : Nat) (current : Nat) (mountAlias : Option String) : JsError where
  message :=
    s!"this would take the store past {max} bytes (currently {current}); " ++ "delete something with the `forget` tool" ++
    match mountAlias with
    | some a => if a = "" then "" else s!" on `{a}`"
    | none => ""
  code := some "store_full"
  size := none
  modelOnlyText := none

/-- `totalRefusal`: only growth past `max` is refused. -/
def totalRefusal (total own next max : Nat) (mountAlias : Option String) : Option JsError :=
  if own < next ∧ max < total - own + next then some (storeFull max total mountAlias) else none

end Antiproton
