import Antiproton.Artifacts.Text
import Antiproton.Core.Base64
import Antiproton.Lib.Positional
import Antiproton.Prompt.SeedLines

/-!
# Antiproton.Provision.ImportChecked

The body of an import, checked whole (`cf/src/provision/handlers.ts`): its shape and bounds, each file's path, and its
bytes against its hash. A problem with the body ends the check; a problem with one file refuses that file, and the
check goes on to the next. What is handed to `atob` is kept beside the answer.
-/

namespace Antiproton.Provision

open Js

/-- Why a request, or one file of it, is refused. -/
inductive Code where
  | missing
  | invalid
  | unknown_field
  | credential_in_text
  | credential_in_path
  | too_large
  | too_many_files
  | reserved
  | duplicate_path
  | file_too_large
  | sha256_mismatch
  | not_text
  | total_mismatch
deriving DecidableEq

structure Fail where
  status : Nat
  code : Code
  message : Str
  param : Option Str
deriving DecidableEq

/-- The shapes of credentials, the hash in hexadecimal, and `toLowerCase`. -/
structure Env where
  secretShape : Str → Option Str
  sha256 : List UInt8 → Str
  toLowerCase : Str → Str

/-! ## Numbers and fields -/

/-- A number as it is written in a message, and in the body. -/
def numText (n : Nat) : Str := (Positional.written 10 n).map hexDigit

def isDigit (u : UInt16) : Bool := 0x30 ≤ u && u ≤ 0x39

/-- `Number.isSafeInteger` of a number that is not negative. -/
def safeInteger (text : Str) : Option Nat :=
  if text ≠ [] ∧ text.all isDigit = true ∧ Positional.read 10 (text.map unhex) < 2 ^ 53 then
    some (Positional.read 10 (text.map unhex))
  else none

inductive LimitUnit where
  | characters
  | utf8Bytes
deriving DecidableEq

def LimitUnit.text : LimitUnit → Str
  | .characters => js "characters"
  | .utf8Bytes => js "UTF-8 bytes"

structure Limit where
  max : Nat
  unit : LimitUnit
deriving DecidableEq

def INSTRUCTIONS_MAX : Nat := 8000

def EVAL_INSTRUCTIONS_MAX_UTF8 : Nat := 65536

/-- `instructionsLimit`, by whether the evaluation setup's routes are served. -/
def instructionsLimit (seed : Bool) : Limit :=
  if seed then ⟨EVAL_INSTRUCTIONS_MAX_UTF8, .utf8Bytes⟩ else ⟨INSTRUCTIONS_MAX, .characters⟩

def sizeIn (v : Str) : LimitUnit → Nat
  | .characters => v.length
  | .utf8Bytes => (utf8 v).length

def IMPORT_FILE_MAX_BYTES : Nat := 2 * 1024 * 1024

def IMPORT_TOTAL_MAX_BYTES : Nat := 10 * 1024 * 1024

def IMPORT_FILES_MAX : Nat := 2000

def IMPORT_FIELDS : List Str := [js "migrationId", js "instructions", js "files", js "totalBytes"]

def IMPORT_FILE_FIELDS : List Str := [js "path", js "contentBase64", js "sha256"]

/-- The first of an object's keys that is none of those known. -/
def unknownField (known : List Str) (fields : List (Str × Json)) : Option Str :=
  (fields.map (·.1)).find? fun k => !known.contains k

/-- `MIGRATION_ID`. -/
def migrationIdOk (s : Str) : Bool :=
  decide (1 ≤ s.length) && decide (s.length ≤ 128) &&
    s.all fun u => SeedLines.isAlnum u || u == unit '.' || u == unit '_' || u == unit ':' || u == unit '-'

/-- `SHA256_HEX`. -/
def sha256Hex (s : Str) : Bool := s.length == 64 && s.all fun u => isDigit u || (0x61 ≤ u && u ≤ 0x66)

def isBase64Unit (u : UInt16) : Bool := (sextetOf u).isSome

/-- `BASE64`: fours, the last of them padded or not. -/
def base64 : Str → Bool
  | [] => true
  | [a, b, c, d] =>
    isBase64Unit a && isBase64Unit b &&
      ((isBase64Unit c && (isBase64Unit d || d == unit '=')) || (c == unit '=' && d == unit '='))
  | a :: b :: c :: d :: rest => isBase64Unit a && isBase64Unit b && isBase64Unit c && isBase64Unit d && base64 rest
  | _ => false

/-- The decoded size, known from the length. -/
def sizeOf (b64 : Str) : Nat :=
  b64.length / 4 * 3 - if endsWith (js "==") b64 then 2 else if endsWith (js "=") b64 then 1 else 0

section Check

variable (env : Env)

def textField (body : Json) (key : Str) (limit : Limit) (required : Bool) : Except Fail (Option Str) :=
  match body.field? key with
  | none => if required then .error ⟨422, .missing, key ++ js " is required", some key⟩ else .ok none
  | some (.str v) =>
    if required && v.all isSpace then .error ⟨422, .invalid, key ++ js " must not be empty", some key⟩
    else if limit.max < sizeIn v limit.unit then
      .error ⟨422, .invalid, key ++ js " is at most " ++ numText limit.max ++ js " " ++ limit.unit.text ++ js "; this one is " ++
        numText (sizeIn v limit.unit), some key⟩
    else
      match env.secretShape v with
      | some shape => .error ⟨422, .credential_in_text, key ++ js " carries what looks like a " ++ shape ++
          js "; credentials go in the credential field only", some key⟩
      | none => .ok (some v)
  | some _ => .error ⟨422, .invalid, key ++ js " must be a string", some key⟩

/-! ## A path -/

inductive PathResult where
  | path (path : Str)
  | problem (text : Str) (reserved : Bool)
deriving DecidableEq

/-- `/[\u0000-\u001f\u007f\\]/` -/
def isRefusedUnit (u : UInt16) : Bool := u ≤ 0x1f || u == 0x7f || u == unit '\\'

/-- The keys of `WORKING_SET`. -/
def WORKING_SET : List Str := [js "todo", js "memory", js "journal"]

def segments (raw : Str) : List Str := (splitOn (unit '/') raw).filter fun p => p ≠ [] && p ≠ js "."

/-- `STATE_KEY` as a message names it. -/
def STATE_KEY_TEXT : Str := js "/^[A-Za-z0-9][A-Za-z0-9._/-]\x7b0,127\x7d$/"

def importPath (raw : Option Json) : PathResult :=
  match raw with
  | some (.str raw) =>
    if raw = [] then .problem (js "path is required") false
    else if raw.any isRefusedUnit then .problem (js "path may not contain a backslash or a control character") false
    else if startsWith (js "/") raw then .problem (js "path must be relative, not absolute") false
    else if endsWith (js "/") raw then .problem (js "path names a directory; give a file") false
    else if (segments raw).contains (js "..") then .problem (js "path must not have a `..` segment") false
    else
      let path := join (js "/") (segments raw)
      if startsWith (js "kept:") (env.toLowerCase path) then .problem (js "kept: names a secret, not a file") true
      else if !SeedLines.stateKey path then
        .problem (js "path must match " ++ STATE_KEY_TEXT ++ js " once normalised (a state key)") false
      else if WORKING_SET.contains path then
        .problem (path ++ js " is one of the agent's working-set documents (" ++ join (js ", ") WORKING_SET ++
          js "), which the runtime keeps; import under another path") true
      else .path path
  | _ => .problem (js "path is required") false

/-! ## A file -/

/-- One file of an import, checked and decoded. -/
structure ImportFile where
  path : Str
  text : Str
  bytes : Nat
  sha256 : Str
deriving DecidableEq

structure ImportRejection where
  index : Nat
  path : Option Str
  reason : Code
  param : Str
deriving DecidableEq

structure Rejected where
  rejection : ImportRejection
  fail : Fail
deriving DecidableEq

def PATH_ECHO_MAX : Nat := 256

/-- The path as a rejection names it: never one shaped like a credential. -/
def echo (f : Json) : Option Str :=
  match f.field? (js "path") with
  | some (.str sent) => if (env.secretShape sent).isSome then none else some (sent.take PATH_ECHO_MAX)
  | _ => none

/-- The credential a path as sent looks like. -/
def credentialPath (f : Json) : Option Str :=
  match f.field? (js "path") with
  | some (.str sent) => env.secretShape sent
  | _ => none

/-- The checks of a file up to its path, which it then holds. -/
def pathOf (at_ : Str) (f : Json) : Except Fail Str :=
  match f with
  | .obj fields =>
    match unknownField IMPORT_FILE_FIELDS fields with
    | some extra => .error ⟨400, .unknown_field, js "unknown field " ++ at_ ++ js "." ++ extra ++
        (if extra = js "content" then js "; a file is sent as contentBase64" else []), some (at_ ++ js "." ++ extra)⟩
    | none =>
      match credentialPath env f with
      | some shape => .error ⟨422, .credential_in_path, at_ ++ js ".path carries what looks like a " ++ shape ++
          js "; credentials are never imported, not even as a name", some (at_ ++ js ".path")⟩
      | none =>
        match importPath env (f.field? (js "path")) with
        | .problem text reserved =>
          .error ⟨422, if reserved then .reserved else .invalid, at_ ++ js ".path: " ++ text, some (at_ ++ js ".path")⟩
        | .path path => .ok path
  | _ => .error ⟨422, .invalid, at_ ++ js " is an object \x7b path, contentBase64, sha256 \x7d", some at_⟩

/-- Those up to its decoding: the hash and the base64 as sent. -/
def encodedOf (at_ : Str) (f : Json) : Except Fail (Str × Str) :=
  match f.field? (js "sha256") with
  | some (.str sha) =>
    if !sha256Hex (env.toLowerCase sha) then
      .error ⟨422, .invalid, at_ ++ js ".sha256 is the hex SHA-256 of the file's bytes", some (at_ ++ js ".sha256")⟩
    else
      match f.field? (js "contentBase64") with
      | some (.str b64) =>
        if !base64 b64 then
          .error ⟨422, .invalid, at_ ++ js ".contentBase64 is the file's bytes in standard, padded base64",
            some (at_ ++ js ".contentBase64")⟩
        else if IMPORT_FILE_MAX_BYTES < sizeOf b64 then
          .error ⟨413, .file_too_large, js "a file is at most " ++ numText IMPORT_FILE_MAX_BYTES ++ js " bytes; " ++ at_ ++
            js " is " ++ numText (sizeOf b64), some (at_ ++ js ".contentBase64")⟩
        else .ok (sha, b64)
      | _ => .error ⟨422, .invalid, at_ ++ js ".contentBase64 is the file's bytes in standard, padded base64",
          some (at_ ++ js ".contentBase64")⟩
  | _ => .error ⟨422, .invalid, at_ ++ js ".sha256 is the hex SHA-256 of the file's bytes", some (at_ ++ js ".sha256")⟩

/-- `Uint8Array.from(atob(b64), (c) => c.charCodeAt(0))`. -/
def decoded (b64 : Str) : List UInt8 := ((atob b64).getD []).map fun u => u.toNat.toUInt8

/-- The text of bytes that are UTF-8 and carry no NUL. A byte order mark is kept. -/
def utf8Text (bytes : List UInt8) : Option Str :=
  if bytes.contains 0 then none else (Artifacts.utf8Chars bytes).map fun chars => chars.flatMap unitsOf

/-- Those of its bytes. -/
def fileOf (at_ path sha b64 : Str) : Except Fail ImportFile :=
  let bytes := decoded b64
  let hash := env.sha256 bytes
  if hash ≠ env.toLowerCase sha then
    .error ⟨422, .sha256_mismatch, at_ ++ js ".sha256 is not the SHA-256 of its decoded bytes", some (at_ ++ js ".sha256")⟩
  else
    match utf8Text bytes with
    | none => .error ⟨422, .not_text, at_ ++ js " is not UTF-8 text with no NUL byte; an imported file is a text document",
        some (at_ ++ js ".contentBase64")⟩
    | some text =>
      match env.secretShape text with
      | some shape => .error ⟨422, .credential_in_text, at_ ++ js " carries what looks like a " ++ shape ++
          js "; credentials are never imported", some (at_ ++ js ".contentBase64")⟩
      | none => .ok ⟨path, text, bytes.length, hash⟩

/-! ## Every file in turn -/

/-- What is carried from file to file, with the texts handed to `atob`. -/
structure Scan where
  files : List ImportFile
  rejected : List Rejected
  seen : List Str
  sum : Nat
  decodes : List Str

def Scan.new : Scan := ⟨[], [], [], 0, []⟩

def IMPORT_REJECTIONS_SHOWN : Nat := 200

/-- `rejectionList`: the first of them, and how many past those. -/
def rejectionList (rejected : List Rejected) : List ImportRejection × Nat :=
  ((rejected.take IMPORT_REJECTIONS_SHOWN).map (·.rejection), rejected.length - IMPORT_REJECTIONS_SHOWN)

/-- A refused import, with the refused files it lists and how many more there are. -/
structure ImportFail where
  fail : Fail
  listed : Option (List ImportRejection × Nat)
deriving DecidableEq

def place (i : Nat) : Str := js "files[" ++ numText i ++ js "]"

/-- `refuse`. -/
def Scan.refuse (i : Nat) (f : Json) (x : Fail) (s : Scan) : Scan :=
  { s with rejected := s.rejected ++ [⟨⟨i, echo env f, x.code, x.param.getD (place i)⟩, x⟩] }

/-- One round of the loop of `importChecked`, and the failure that ends it. -/
def fileChecked (i : Nat) (f : Json) (s : Scan) : Option ImportFail × Scan :=
  match pathOf env (place i) f with
  | .error x => (none, s.refuse env i f x)
  | .ok path =>
    if s.seen.contains path then
      (none, s.refuse env i f ⟨422, .duplicate_path,
        place i ++ js ".path is " ++ path ++ js ", which an earlier file already is", some (place i ++ js ".path")⟩)
    else
      let s := { s with seen := s.seen ++ [path] }
      match encodedOf env (place i) f with
      | .error x => (none, s.refuse env i f x)
      | .ok (sha, b64) =>
        let s := { s with sum := s.sum + sizeOf b64 }
        if IMPORT_TOTAL_MAX_BYTES < s.sum then
          (some ⟨⟨413, .too_large, js "an import is at most " ++ numText IMPORT_TOTAL_MAX_BYTES ++
            js " bytes together; the files through " ++ place i ++ js " are " ++ numText s.sum, some (js "files")⟩,
            if s.rejected.isEmpty then none else some (rejectionList s.rejected)⟩, s)
        else
          let s := { s with decodes := s.decodes ++ [b64] }
          match fileOf env (place i) path sha b64 with
          | .error x => (none, s.refuse env i f x)
          | .ok file => (none, { s with files := s.files ++ [file] })

def filesChecked : Nat → List Json → Scan → Option ImportFail × Scan
  | _, [], s => (none, s)
  | i, f :: rest, s =>
    match fileChecked env i f s with
    | (some x, s) => (some x, s)
    | (none, s) => filesChecked (i + 1) rest s

/-! ## The body -/

/-- What a body says, its shape and bounds checked. -/
structure ImportBody where
  migrationId : Str
  instructions : Option Str
  totalBytes : Nat
  list : List Json

/-- `MIGRATION_ID` as a message names it. -/
def MIGRATION_ID_TEXT : Str := js "/^[A-Za-z0-9._:-]\x7b1,128\x7d$/"

def migrationIdOf (body : Json) : Option Str :=
  match body.field? (js "migrationId") with
  | some (.str id) => if migrationIdOk id then some id else none
  | _ => none

def totalOf (body : Json) : Option Nat :=
  match body.field? (js "totalBytes") with
  | some (.num text) => safeInteger text
  | _ => none

/-- The checks that end it all: the fields of the body, and the bounds on the whole it says itself. -/
def bodyOf (body : Json) (instructionsMax : Limit) : Except Fail ImportBody :=
  match body with
  | .obj fields =>
    match unknownField IMPORT_FIELDS fields with
    | some key => .error ⟨400, .unknown_field, js "unknown field " ++ key, some key⟩
    | none =>
      match migrationIdOf body with
      | none => .error ⟨422, .invalid, js "migrationId is required and must match " ++ MIGRATION_ID_TEXT,
          some (js "migrationId")⟩
      | some migrationId =>
        match textField env body (js "instructions") instructionsMax false with
        | .error x => .error x
        | .ok instructions =>
          match totalOf body with
          | none => .error ⟨422, .invalid, js "totalBytes is required: the sum of the files' decoded sizes, in bytes",
              some (js "totalBytes")⟩
          | some totalBytes =>
            if IMPORT_TOTAL_MAX_BYTES < totalBytes then
              .error ⟨413, .too_large, js "an import is at most " ++ numText IMPORT_TOTAL_MAX_BYTES ++
                js " bytes together; this one says " ++ numText totalBytes, some (js "totalBytes")⟩
            else
              match body.field? (js "files") with
              | some (.arr list) =>
                if IMPORT_FILES_MAX < list.length then
                  .error ⟨413, .too_many_files, js "an import is at most " ++ numText IMPORT_FILES_MAX ++
                    js " files; this one has " ++ numText list.length, some (js "files")⟩
                else .ok ⟨migrationId, instructions, totalBytes, list⟩
              | _ => .error ⟨422, .invalid, js "files is an array of \x7b path, contentBase64, sha256 \x7d", some (js "files")⟩
  | _ => .error ⟨422, .invalid, js "the body is a JSON object", none⟩

structure ImportChecked where
  migrationId : Str
  instructions : Option Str
  files : List ImportFile
  totalBytes : Nat
  rejected : List Rejected

/-- `importChecked`, and what it handed to `atob`. -/
def importChecked (body : Json) (instructionsMax : Limit) : Except ImportFail ImportChecked × List Str :=
  match bodyOf env body instructionsMax with
  | .error x => (.error ⟨x, none⟩, [])
  | .ok b =>
    match filesChecked env 0 b.list Scan.new with
    | (some x, s) => (.error x, s.decodes)
    | (none, s) =>
      if s.rejected.isEmpty ∧ s.sum ≠ b.totalBytes then
        (.error ⟨⟨422, .total_mismatch, js "totalBytes is " ++ numText b.totalBytes ++ js ", and the files decode to " ++
          numText s.sum, some (js "totalBytes")⟩, none⟩, s.decodes)
      else (.ok ⟨b.migrationId, b.instructions, s.files, (s.files.map (·.bytes)).sum, s.rejected⟩, s.decodes)

structure ImportAccepted where
  migrationId : Str
  instructions : Option Str
  files : List ImportFile
  totalBytes : Nat

def importRequest (body : Json) (instructionsMax : Limit) : Except ImportFail ImportAccepted :=
  match (importChecked env body instructionsMax).1 with
  | .error x => .error x
  | .ok c =>
    match c.rejected with
    | [] => .ok ⟨c.migrationId, c.instructions, c.files, c.totalBytes⟩
    | first :: rest =>
      let also := if rest.isEmpty then [] else
        js "; " ++ numText (rest.length + 1) ++ js " files are refused in all, each named in rejected"
      .error ⟨{ first.fail with message := first.fail.message ++ also }, some (rejectionList (first :: rest))⟩

/-- What `POST /provision/import-check` answers. -/
inductive CheckAnswer where
  | failed (x : ImportFail)
  | checked (ok : Bool) (rejected : List ImportRejection) (more files bytes : Nat)
deriving DecidableEq

def importCheck (body : Json) (seed : Bool) : CheckAnswer :=
  match (importChecked env body (instructionsLimit seed)).1 with
  | .error x => .failed x
  | .ok c =>
    .checked c.rejected.isEmpty (rejectionList c.rejected).1 (rejectionList c.rejected).2 c.files.length c.totalBytes

end Check

end Antiproton.Provision
