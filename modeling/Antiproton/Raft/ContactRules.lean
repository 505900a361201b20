import Antiproton.Lib.Best
import Antiproton.Core.JsonText

/-!
# Antiproton.Raft.ContactRules

A personal assistant's contact rules (`src/plugins/raft-assistant-rules.ts`): how they are read from what is stored and
written back, what each is about, and which decides for an item.

`Date.parse` and `Number` of a text are parameters: a time in milliseconds or none, and a number of any ordered type or
none.

* `rulesOf`, `keptRules`: the rules as they are stored.
* `isMatch`, `winningRule`: the rule that decides.
-/

namespace Antiproton.ContactRules

open Js

/-! ## Rules -/

inductive ItemKind where
  | question
  | review
  | decision
  | task
  | mention
  | decided
deriving DecidableEq

def ItemKind.word : ItemKind → String
  | question => "question"
  | review => "review"
  | decision => "decision"
  | task => "task"
  | mention => "mention"
  | decided => "decided"

def ITEM_KINDS : List ItemKind := [.question, .review, .decision, .task, .mention, .decided]

inductive Effect where
  | mute
  | always
  | digest
deriving DecidableEq

def Effect.word : Effect → String
  | mute => "mute"
  | always => "always"
  | digest => "digest"

def EFFECTS : List Effect := [.mute, .always, .digest]

inductive PersonType where
  | human
  | agent
deriving DecidableEq

def PersonType.word : PersonType → String
  | human => "human"
  | agent => "agent"

inductive Subject where
  | channel (id : Option Str) (name : Str)
  | thread (id : Str) (channelId : Option Str) (ref : Str)
  | person (id : Option Str) (type : Option PersonType) (name : Str)
  | kind (value : ItemKind)
  | dms
  | legacy (channel sender : Option Str) (itemKind : Option ItemKind)
deriving DecidableEq

structure ContactRule where
  id : Str
  effect : Effect
  subject : Subject
  anytime : Bool
  until_ : Option Str
  note : Option Str
  createdAt : Option Str
deriving DecidableEq

/-- `SPECIFICITY`. -/
def Subject.specificity : Subject → Nat
  | thread .. => 4
  | person .. => 3
  | channel .. | dms | legacy .. => 2
  | kind _ => 1

/-! ## Reading -/

/-- A value that is a text, and not an empty one. -/
def str : Option Json → Option Str
  | some (.str s) => if s = [] then none else some s
  | _ => none

/-- A value that is a text. -/
def text : Option Json → Option Str
  | some (.str s) => some s
  | _ => none

def isWord (v : Option Json) (word : String) : Bool := text v == some (js word)

def kindOf (v : Option Json) : Option ItemKind := ITEM_KINDS.find? fun k => isWord v k.word

def effectOf (v : Option Json) : Option Effect := EFFECTS.find? fun e => isWord v e.word

def typeOf (v : Option Json) : Option PersonType := [PersonType.human, .agent].find? fun t => isWord v t.word

def subjectOf : Option Json → Option Subject
  | some (.obj fields) =>
    let s := fun name : String => (Json.obj fields).field? (js name)
    if isWord (s "kind") "channel" then (text (s "name")).map fun name => .channel (str (s "id")) name
    else if isWord (s "kind") "thread" then
      (text (s "id")).bind fun id => (text (s "ref")).map fun ref => .thread id (str (s "channelId")) ref
    else if isWord (s "kind") "person" then
      (text (s "name")).map fun name => .person (str (s "id")) (typeOf (s "type")) name
    else if isWord (s "kind") "kind" then (kindOf (s "value")).map .kind
    else if isWord (s "kind") "dms" then some .dms
    else if isWord (s "kind") "legacy" then some (.legacy (str (s "channel")) (str (s "sender")) (kindOf (s "itemKind")))
    else none
  | _ => none

/-- What a rule from before effects and subjects is about. -/
def oldSubject (channel sender : Option Str) (kind : Option ItemKind) : Option Subject :=
  let named := ([channel.isSome, sender.isSome, kind.isSome].filter id).length
  if named = 0 then none
  else if 1 < named then some (.legacy channel sender kind)
  else
    match channel, sender, kind with
    | some c, _, _ => some (.channel none c)
    | none, some s, _ => some (.person none none s)
    | none, none, k => k.map .kind

section Times

variable (dateParse : Str → Option Int)

def readRule : Json → List ContactRule
  | .obj fields =>
    let o := fun name : String => (Json.obj fields).field? (js name)
    match str (o "id") with
    | none => []
    | some id =>
      let note := str (o "note")
      match effectOf (o "effect") with
      | some effect =>
        match subjectOf (o "subject") with
        | none => []
        | some subject =>
          [⟨id, effect, subject, o "anytime" == some (.bool true) && effect == .always,
            (str (o "until")).filter fun t => (dateParse t).isSome, note, str (o "createdAt")⟩]
      | none =>
        match oldSubject (str (o "channel")) (str (o "sender")) (kindOf (o "kind")) with
        | none => []
        | some subject => [⟨id, .mute, subject, false, none, note, none⟩]
  | _ => []

def rulesOf : Json → List ContactRule
  | .arr items => items.flatMap (readRule dateParse)
  | _ => []

def isActive (r : ContactRule) (now : Int) : Bool :=
  match r.until_ with
  | none => true
  | some t => (dateParse t).any fun at_ => decide (now < at_)

/-! ## Writing -/

def optional : Option Str → Json
  | none => .null
  | some s => .str s

def Subject.json : Subject → Json
  | channel id name => .obj [(js "kind", .ofString "channel"), (js "id", optional id), (js "name", .str name)]
  | thread id channelId ref =>
    .obj [(js "kind", .ofString "thread"), (js "id", .str id), (js "channelId", optional channelId), (js "ref", .str ref)]
  | person id type name =>
    .obj [(js "kind", .ofString "person"), (js "id", optional id), (js "type", optional (type.map fun t => js t.word)),
      (js "name", .str name)]
  | kind value => .obj [(js "kind", .ofString "kind"), (js "value", .ofString value.word)]
  | dms => .obj [(js "kind", .ofString "dms")]
  | legacy channelName sender itemKind =>
    .obj [(js "kind", .ofString "legacy"), (js "channel", optional channelName), (js "sender", optional sender),
      (js "itemKind", optional (itemKind.map fun k => js k.word))]

def ContactRule.json (r : ContactRule) : Json :=
  .obj [(js "id", .str r.id), (js "effect", .ofString r.effect.word), (js "subject", r.subject.json),
    (js "anytime", .bool r.anytime), (js "until", optional r.until_), (js "note", optional r.note),
    (js "createdAt", optional r.createdAt)]

def keptRules (rules : List ContactRule) (now : Int) : Json :=
  .arr ((rules.filter fun r => isActive dateParse r now).map (·.json))

end Times

/-! ## Deciding -/

/-- What a rule is held against; what is absent and what is null are one. -/
structure Target where
  channelId : Option Str
  parentChannelId : Option Str
  thread : Bool
  dm : Bool
  mention : Bool
  senderId : Option Str
  kind : Option ItemKind
  channelName : Option Str
  senderName : Option Str

/-- `matches`. -/
def isMatch (rule : ContactRule) (t : Target) : Bool :=
  let chatOnly := rule.effect != .always && t.mention
  match rule.subject with
  | .channel id _ => id.isSome && !t.dm && !chatOnly && (t.channelId == id || t.parentChannelId == id)
  | .thread id _ _ => t.thread && !chatOnly && t.channelId == some id
  | .person id _ _ => id.isSome && t.senderId.isSome && t.senderId == id
  | .kind value => t.kind == some value
  | .dms => t.dm
  | .legacy channel sender itemKind =>
    t.kind.isSome && (channel.isNone || channel == t.channelName) && (sender.isNone || sender == t.senderName) &&
      (itemKind.isNone || itemKind == t.kind)

section Numbers

variable {N : Type} [LinearOrder N] [Zero N] (dateParse : Str → Option Int) (number : Str → Option N)

def idNumber (id : Str) : N := (number (id.drop 1)).getD 0

/-- When a rule was made, as it is compared: before every time where it says none, and no number where it cannot be read. -/
def made (r : ContactRule) : Option (Option Int) :=
  match r.createdAt with
  | none => some none
  | some t => if t = [] then some none else (dateParse t).map some

/-- `ta > tb`, where no time is before every time. -/
def isLater : Option Int → Option Int → Bool
  | none, _ => false
  | some _, none => true
  | some ta, some tb => decide (tb < ta)

def newerOrMoreSpecific (a b : ContactRule) : Bool :=
  if a.subject.specificity ≠ b.subject.specificity then decide (b.subject.specificity < a.subject.specificity)
  else
    match made dateParse a, made dateParse b with
    | some ta, some tb => if ta ≠ tb then isLater ta tb else decide (idNumber number b.id < idNumber number a.id)
    | _, _ => false

def winningRule (rules : List ContactRule) (t : Target) (now : Int) : Option ContactRule :=
  rules.foldl (fun best r =>
    if !isActive dateParse r now || !isMatch r t then best
    else
      match best with
      | none => some r
      | some b => if newerOrMoreSpecific dateParse number r b then some r else best) none

end Numbers

end Antiproton.ContactRules
