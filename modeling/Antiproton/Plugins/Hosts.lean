import Mathlib.Data.List.DropRight
import Antiproton.Lib.Blocks
import Antiproton.Lib.Positional
import Antiproton.Lib.Windows
import Antiproton.Core.JsonParse
import Antiproton.Plugins.Bridge

/-!
# Antiproton.Plugins.Hosts

Whether a host names somewhere inward (`src/plugins/http.ts`), and how `URL` spells the host it hands over: an IPv4
address in dotted decimal, an IPv6 address in brackets with its first longest run of zeros left out, or a name in lower
case.

* `internalHost`: the check.
* `Host`: what it is of, and `Inward`: what it is to find.
-/

namespace Antiproton.Plugins.Hosts

open Js

/-! ## The check -/

def internalV4 (quad : List Nat) : Bool :=
  let a := quad.getD 0 0
  let b := quad.getD 1 0
  a == 0 || a == 10 || a == 127 || decide (224 ≤ a) || (a == 169 && b == 254) ||
    (a == 172 && decide (16 ≤ b) && decide (b ≤ 31)) || (a == 192 && b == 168) ||
    (a == 100 && decide (64 ≤ b) && decide (b ≤ 127)) || (a == 198 && (b == 18 || b == 19))

/-- `s.split(sep)` for a separator that is one unit twice. -/
def splitTwice (u : UInt16) : Str → List Str
  | [] => [[]]
  | [c] => [[c]]
  | c :: d :: rest =>
    if c = u ∧ d = u then [] :: splitTwice u rest
    else (splitTwice u (d :: rest)).modifyHead (c :: ·)

/-- The value of a hexadecimal digit. -/
def hexValue (u : UInt16) : Option Nat :=
  if isDigit u then some (u.toNat - 0x30)
  else if unit 'a' ≤ u && u ≤ unit 'f' then some (u.toNat - 0x57)
  else if unit 'A' ≤ u && u ≤ unit 'F' then some (u.toNat - 0x37)
  else none

/-- The digits `parseInt` reads. -/
def hexDigits (s : Str) : List Nat := (s.takeWhile fun u => (hexValue u).isSome).filterMap hexValue

/-- `parseInt(s, 16)`. -/
def parseHex (s : Str) : Option Int :=
  let s := s.dropWhile isSpace
  let negative := s.head? == some (unit '-')
  let s := if negative || s.head? == some (unit '+') then s.drop 1 else s
  let s := if startsWith (js "0x") s || startsWith (js "0X") s then s.drop 2 else s
  if hexDigits s = [] then none
  else some (if negative then -(Positional.read 16 (hexDigits s) : Int) else Positional.read 16 (hexDigits s))

def groupsPart (s : Str) : List (Option Int) := if s = [] then [] else (splitOn (unit ':') s).map parseHex

def isGroup (g : Option Int) : Bool := g.any fun g => decide (0 ≤ g) && decide (g ≤ 0xffff)

def groupValue (g : Option Int) : Nat := (g.getD 0).toNat

def groupsOf (v6 : Str) : Option (List Nat) :=
  let halves := splitTwice (unit ':') v6
  if 2 < halves.length then none
  else
    let head := groupsPart (halves.headD [])
    let tail := if halves.length = 2 then groupsPart (halves.getD 1 []) else []
    let fill : Int := 8 - head.length - tail.length
    if fill < 0 ∨ (halves.length = 1 ∧ fill ≠ 0) ∨ !(head ++ tail).all isGroup then none
    else some (head.map groupValue ++ List.replicate fill.toNat 0 ++ tail.map groupValue)

def internalV6 (v6 : Str) : Bool :=
  match groupsOf v6 with
  | none => true
  | some g =>
    let at_ := fun i => g.getD i 0
    let v4 := fun hi lo => internalV4 [hi >>> 8, hi &&& 255, lo >>> 8, lo &&& 255]
    let zeros := fun from_ to_ => ((g.take to_).drop from_).all (· == 0)
    if decide (0xfc00 ≤ at_ 0) && decide (at_ 0 ≤ 0xfdff) then true
    else if decide (0xfe80 ≤ at_ 0) && decide (at_ 0 ≤ 0xffff) then true
    else if zeros 0 6 then v4 (at_ 6) (at_ 7)
    else if zeros 0 5 && at_ 5 == 0xffff then v4 (at_ 6) (at_ 7)
    else if zeros 0 4 && at_ 4 == 0xffff && at_ 5 == 0 then v4 (at_ 6) (at_ 7)
    else if at_ 0 == 0x64 && at_ 1 == 0xff9b && zeros 2 6 then v4 (at_ 6) (at_ 7)
    else if at_ 0 == 0x64 && at_ 1 == 0xff9b && at_ 2 == 1 then true
    else if at_ 0 == 0x2002 then v4 (at_ 1) (at_ 2)
    else false

/-- Suffixes kept for local networks. -/
def RESERVED_SUFFIX : List String := ["localhost", "local", "internal", "home.arpa"]

/-- `RESOLVER_SUFFIX`: services that answer with the address written in the name, or with loopback. -/
def RESOLVER_SUFFIX : List String :=
  ["nip.io", "sslip.io", "xip.io", "traefik.me", "localtest.me", "lvh.me", "localho.st", "localhost.direct", "lacolhost.com"]

/-- The name is under the suffix. -/
def below (h : Str) (suffix : String) : Bool := endsWith (unit '.' :: js suffix) h

/-- Four labels of digits. -/
def dottedQuad (h : Str) : Option (List Nat) :=
  let labels := splitOn (unit '.') h
  if labels.length = 4 ∧ labels.all fun l => !l.isEmpty && l.all isDigit then some (labels.map numberOf) else none

/-- The parts of a name between dots and dashes. -/
def partsOf (h : Str) : List Str := (splitOn (unit '.') h).flatMap (splitOn (unit '-'))

/-- One to three digits. -/
def isPart (p : Str) : Bool := p.all isDigit && decide (1 ≤ p.length) && decide (p.length ≤ 3)

/-- Four parts spell an address that is not public. -/
def inwardQuad (a b c d : Str) : Bool :=
  let quad := [numberOf a, numberOf b, numberOf c, numberOf d]
  quad.all (fun n => decide (n ≤ 255)) && internalV4 quad

/-- A host without the dots it ends with. -/
def bare (h : Str) : Str := h.rdropWhile (· == unit '.')

/-- A match of the pattern takes a separator, or the start, and four parts, and leaves the separator after them. -/
def internalHost (hostname : Str) : Bool :=
  let h := bare (lowerAscii hostname)
  if startsWith (js "[") h then internalV6 (h.drop 1).dropLast
  else if !h.contains (unit '.') then true
  else if RESERVED_SUFFIX.any (below h) then true
  else if RESOLVER_SUFFIX.any fun d => h == js d || below h d then true
  else
    match dottedQuad h with
    | some quad => internalV4 quad
    | none => Windows.scan isPart inwardQuad (partsOf h)

/-! ## Hosts as `URL` spells them -/

/-- An IPv4 address. -/
structure V4 where
  a : Fin 256
  b : Fin 256
  c : Fin 256
  d : Fin 256

def V4.bytes (x : V4) : List Nat := [x.a, x.b, x.c, x.d]

/-- An IPv6 address. -/
structure V6 where
  groups : List Nat
  eight : groups.length = 8
  small : ∀ g ∈ groups, g < 65536

/-- A name: lower-case, without a bracket. -/
structure Name where
  text : Str
  plain : ∀ u ∈ text, u < 128 ∧ (unit 'A' ≤ u && u ≤ unit 'Z') = false ∧ u ≠ unit '['

inductive Host where
  | v4 (x : V4)
  | v6 (x : V6)
  | name (n : Name)

def decimalText (n : Nat) : Str := (Positional.written 10 n).map hexDigit

def hexText (n : Nat) : Str := (Positional.written 16 n).map hexDigit

/-- How many zero groups stand at a place. -/
def zerosAt (g : List Nat) (i : Nat) : Nat := ((g.drop i).takeWhile (· == 0)).length

/-- Where the first longest run of more than one zero group starts. -/
def compressAt (g : List Nat) : Option Nat :=
  (List.range g.length).find? fun i =>
    decide (1 < zerosAt g i) && (List.range g.length).all fun j => decide (zerosAt g j ≤ zerosAt g i)

def V6.text (x : V6) : Str :=
  let written := fun g : List Nat => join (js ":") (g.map hexText)
  match compressAt x.groups with
  | none => written x.groups
  | some i => written (x.groups.take i) ++ js "::" ++ written (x.groups.drop (i + zerosAt x.groups i))

def Host.text : Host → Str
  | .v4 x => join (js ".") (x.bytes.map decimalText)
  | .v6 x => js "[" ++ x.text ++ js "]"
  | .name n => n.text

/-! ## What the check is to find -/

open Blocks

/-- The ranges of IPv4 that are not the public internet. -/
def NON_PUBLIC : List Block :=
  [⟨[0], 8⟩, ⟨[10], 8⟩, ⟨[100, 64], 10⟩, ⟨[127], 8⟩, ⟨[169, 254], 16⟩, ⟨[172, 16], 12⟩, ⟨[192, 168], 16⟩, ⟨[198, 18], 15⟩,
    ⟨[224], 4⟩, ⟨[240], 4⟩]

def nonPublic (bytes : List Nat) : Bool := NON_PUBLIC.any (·.holds 8 bytes)

/-- Unspecified, loopback, unique-local, link-local, site-local, multicast, and local-use NAT64. -/
def INWARD : List Block :=
  [⟨[0, 0, 0, 0, 0, 0, 0, 0], 128⟩, ⟨[0, 0, 0, 0, 0, 0, 0, 1], 128⟩, ⟨[0xfc00], 7⟩, ⟨[0xfe80], 10⟩, ⟨[0xfec0], 10⟩,
    ⟨[0xff00], 8⟩, ⟨[0x64, 0xff9b, 1], 48⟩]

/-- The forms that carry an IPv4 address, and the group it starts at: compatible, mapped, translated, NAT64, 6to4. -/
def CARRIERS : List (Block × Nat) :=
  [(⟨[0, 0, 0, 0, 0, 0], 96⟩, 6), (⟨[0, 0, 0, 0, 0, 0xffff], 96⟩, 6), (⟨[0, 0, 0, 0, 0xffff, 0], 96⟩, 6),
    (⟨[0x64, 0xff9b, 0, 0, 0, 0], 96⟩, 6), (⟨[0x2002], 16⟩, 1)]

def carried (g : List Nat) (i : Nat) : List Nat :=
  let hi := g.getD i 0
  let lo := g.getD (i + 1) 0
  [hi / 256, hi % 256, lo / 256, lo % 256]

def V6.inward (x : V6) : Bool :=
  INWARD.any (·.holds 16 x.groups) || CARRIERS.any fun c => c.1.holds 16 x.groups && nonPublic (carried x.groups c.2)

/-- Some four parts of the name in a row spell an address that is not public. -/
def Spells (h : Str) : Prop := ∃ before, Windows.Hit isPart inwardQuad (partsOf h) before

/-- No dot, under a reserved suffix, or a listed resolver or under one. -/
def named (h : Str) : Bool :=
  !h.contains (unit '.') || RESERVED_SUFFIX.any (below h) || RESOLVER_SUFFIX.any fun d => h == js d || below h d

/-- What is claimed of a host. -/
def Covered : Host → Prop
  | .v4 x => internalHost (Host.v4 x).text = true ↔ nonPublic x.bytes = true
  | .v6 x => groupsOf x.text = some x.groups ∧ (internalHost (Host.v6 x).text = true ↔ x.inward = true)
  | .name n => named (bare n.text) = true ∨ Spells (bare n.text) → internalHost n.text = true

/-- Where the parts of one to three digits in a row come to a multiple of four before an inward address, it is seen. -/
def Seen : Host → Prop
  | .v4 _ | .v6 _ => True
  | .name n =>
    Spells (bare n.text) → named (bare n.text) = true ∨
      ∃ before, Windows.Hit isPart inwardQuad (partsOf (bare n.text)) before ∧ Windows.run isPart 0 before % 4 = 0

end Antiproton.Plugins.Hosts
