import Mathlib.Data.List.GetD
import Antiproton.Core.Base64
import Antiproton.Core.JsonParse
import Antiproton.Images.Window

/-!
# Antiproton.Images.Resolve

The image references of a request replaced for the provider call (`resolveImagesReported`, `src/model/images.ts`). A content
array is an object of its own, which the call copies before it writes: the heap has the arrays, and a message its address.

* `resolveImagesReported_spec`: what becomes of each reference, and that nothing else changes.
* `resolveImagesReported_bytes`: the bytes sent are within the window.
-/

namespace Antiproton.Images

open Js

/-! ## References -/

def IMAGE_REF_PREFIX : Str := js "apimg:sha256:"

def MAX_IMAGE_BYTES : Nat := 3 * 512 * 1024

def isHexUnit (u : UInt16) : Bool := isDigit u || (0x61 ≤ u && u ≤ 0x66)

/-- `REF`: the hash, and the digits of the size where one is declared. -/
def refParts (s : Str) : Option (Str × Option Str) :=
  if (s.take 64).length = 64 ∧ (s.take 64).all isHexUnit = true then
    match s.drop 64 with
    | [] => some (s.take 64, none)
    | colon :: digits =>
      if colon = unit ':' ∧ digits ≠ [] ∧ digits.length ≤ 9 ∧ digits.all isDigit = true then
        some (s.take 64, some digits)
      else none
  else none

/-- The parts of what follows the prefix, in a string that has it. -/
def refOf : Option Json → Option (Str × Option Str)
  | some (.str s) => if startsWith IMAGE_REF_PREFIX s then refParts (s.drop IMAGE_REF_PREFIX.length) else none
  | _ => none

def imageRefHash (data : Option Json) : Option Str := (refOf data).map (·.1)

/-- The size a reference declares, or the most it can be. -/
def imageRefBytes : Option Json → Nat
  | some (.str s) =>
    match (refParts (s.drop IMAGE_REF_PREFIX.length)).bind (·.2) with
    | some digits => if 0 < numberOf digits ∧ numberOf digits ≤ MAX_IMAGE_BYTES then numberOf digits else MAX_IMAGE_BYTES
    | none => MAX_IMAGE_BYTES
  | _ => MAX_IMAGE_BYTES

def imageRefDeclaredBytes (data : Option Json) : Option Nat := ((refOf data).bind (·.2)).map numberOf

/-! ## Messages -/

abbrev Heap := List (List Json)

/-- A message with a content array, or any other value. -/
inductive Message where
  | other (v : Json)
  | holds (fields : List (Str × Json)) (cell : Nat)
deriving DecidableEq

structure Context where
  fields : List (Str × Json)
  messages : Option (List Message)
deriving DecidableEq

def contentOf (heap : Heap) : Message → Option (List Json)
  | .other _ => none
  | .holds _ cell => some (heap.getD cell [])

/-- The hash an image block's reference names. -/
def blockHash (c : Json) : Option Str :=
  if c.field? (js "type") = some (.str (js "image")) then imageRefHash (c.field? (js "data")) else none

def hasImageRefs (heap : Heap) (context : Context) : Bool :=
  (context.messages.getD []).any fun m => ((contentOf heap m).getD []).any fun c => (blockHash c).isSome

/-- An image reference, where it sits and what it declares. -/
structure Slot where
  m : Nat
  ci : Nat
  sha : Str
  bytes : Nat
  declared : Option Nat
  mimeType : Option Json
deriving DecidableEq

def slotOf (m ci : Nat) (c : Json) : Option Slot :=
  (blockHash c).map fun sha =>
    ⟨m, ci, sha, imageRefBytes (c.field? (js "data")), imageRefDeclaredBytes (c.field? (js "data")), c.field? (js "mimeType")⟩

/-- The references of one message, from its `ci`-th block on. -/
def contentSlots (m : Nat) : Nat → List Json → List Slot
  | _, [] => []
  | ci, c :: cs => (slotOf m ci c).toList ++ contentSlots m (ci + 1) cs

/-- Every reference, oldest first, from the `m`-th message on. -/
def imageSlots (heap : Heap) : Nat → List Message → List Slot
  | _, [] => []
  | m, message :: rest => contentSlots m 0 ((contentOf heap message).getD []) ++ imageSlots heap (m + 1) rest

/-- Each content array of `given` copied to a cell of its own. -/
def copyMessages (given : Heap) : List Message → Heap → List Message × Heap
  | [], heap => ([], heap)
  | .other v :: rest, heap =>
    let r := copyMessages given rest heap
    (.other v :: r.1, r.2)
  | .holds fields cell :: rest, heap =>
    let r := copyMessages given rest (heap ++ [given.getD cell []])
    (.holds fields heap.length :: r.1, r.2)

/-- `m.content[ci] = v`. -/
def setBlock (messages : List Message) (m ci : Nat) (v : Json) (heap : Heap) : Heap :=
  match messages[m]? with
  | some (.holds _ cell) => heap.set cell ((heap.getD cell []).set ci v)
  | _ => heap

def blockAt (heap : Heap) (messages : List Message) (m ci : Nat) : Option Json :=
  ((messages[m]?).bind (contentOf heap)).bind (·[ci]?)

/-! ## The texts of a request -/

mutual

/-- `String(v)`. -/
def toText : Json → Str
  | .null => js "null"
  | .bool b => js (toString b)
  | .num text => text
  | .str s => s
  | .arr items => join [unit ','] (toTexts items)
  | .obj _ => js "[object Object]"

def toTexts : List Json → List Str
  | [] => []
  | .null :: rest => [] :: toTexts rest
  | v :: rest => toText v :: toTexts rest

end

def textOf (v : Option Json) : Str := v.elim (js "undefined") toText

def omittedImageText (mimeType : Option Json) (sha256 : Str) : Str :=
  js "\n\n[earlier image omitted: " ++ textOf mimeType ++ js " " ++ sha256.take 8 ++ js "; view it again if it is needed]"

def textBlock (text : Str) : Json := .obj [(js "type", .str (js "text")), (js "text", .str text)]

/-- The block with its bytes in the place of the reference. -/
def withData (c : Json) (data : Str) : Json :=
  match c with
  | .obj fields => .obj (Map.set fields (js "data") (.str data))
  | v => v

/-- `Buffer.from(bytes).toString("base64")`. -/
def base64 (bytes : List UInt8) : Str :=
  let sextets := encodeSextets (bytes.map fun b => b.toUInt16)
  sextets ++ List.replicate ((4 - sextets.length % 4) % 4) (unit '=')

/-! ## The call -/

inductive ImageItemResult where
  | included_in_request | omitted | load_failed
deriving DecidableEq

inductive ImageItemReason where
  | before_window | over_budget | non_vision_model | missing | read_error | size_mismatch
deriving DecidableEq

structure ImageItem where
  index : Nat
  sha256 : Str
  declaredBytes : Option Nat
  readBytes : Option Nat
  result : ImageItemResult
  reason : Option ImageItemReason
deriving DecidableEq

/-- What a loader's read comes back with. -/
inductive Loaded where
  | bytes (b : List UInt8)
  | nothing
  | throws (message : Str)

/-- A loader, over a state of its own. -/
abbrev ImageLoader (S : Type) := Str → S → Loaded × S

inductive Read where
  | data (data : Str) (length : Nat)
  | problem (problem : Str) (reason : ImageItemReason) (length : Option Nat)
deriving DecidableEq

/-- Where the walk over the references stands; `loads` is what was asked of the loader. -/
structure Walk (S : Type) where
  heap : Heap
  read : Map Read
  items : List ImageItem
  store : S
  loads : List Str

section Call

variable {S : Type} (sha256Hex : List UInt8 → Str) (load : Option (ImageLoader S))

/-- What a read of an image comes to. -/
def readOf (sha : Str) : Loaded → Read
  | .throws message => .problem (js "reading it failed (" ++ message.take 120 ++ js ")") .read_error none
  | .nothing => .problem (js "it is no longer stored") .missing none
  | .bytes b =>
    if sha256Hex b ≠ sha then .problem (js "the stored bytes no longer match it") .read_error (some b.length)
    else .data (base64 b) b.length

/-- Each hash is read once. -/
def fetchOne (sha : Str) (s : Walk S) : Read × Walk S :=
  match s.read.get sha with
  | some r => (r, s)
  | none =>
    match load with
    | none =>
      let r := .problem (js "no image store is reachable here") .read_error none
      (r, { s with read := s.read.set sha r })
    | some load =>
      let r := readOf sha256Hex sha (load sha s.store).1
      (r, { s with read := s.read.set sha r, store := (load sha s.store).2, loads := s.loads ++ [sha] })

/-- The bytes read, held to the size the reference declares. -/
def heldTo (declared : Option Nat) : Read → Read
  | .data data length =>
    match declared with
    | some d =>
      if length ≠ d then
        .problem (js s!"it is {length} bytes, not the {d} its reference declares") .size_mismatch (some length)
      else .data data length
    | none => .data data length
  | r => r

def resolveSlot (messages : List Message) (bounds : Bounds) (k : Nat) (slot : Slot) (s : Walk S) : Walk S :=
  if k < bounds.start then
    { s with
      heap := setBlock messages slot.m slot.ci (textBlock (omittedImageText slot.mimeType slot.sha)) s.heap
      items := s.items ++ [⟨k, slot.sha, slot.declared, none, .omitted,
        some (if k < bounds.fits then .over_budget else .before_window)⟩] }
  else
    let got := fetchOne sha256Hex load slot.sha s
    match heldTo slot.declared got.1 with
    | .problem problem reason length =>
      { got.2 with
        heap := setBlock messages slot.m slot.ci
          (textBlock (js "\n\n(an image could not be loaded: " ++ problem ++ js ")")) got.2.heap
        items := got.2.items ++ [⟨k, slot.sha, slot.declared, length, .load_failed, some reason⟩] }
    | .data data length =>
      { got.2 with
        heap := setBlock messages slot.m slot.ci
          (withData ((blockAt got.2.heap messages slot.m slot.ci).getD .null) data) got.2.heap
        items := got.2.items ++ [⟨k, slot.sha, slot.declared, some length, .included_in_request, none⟩] }

def resolveSlots (messages : List Message) (bounds : Bounds) : Nat → List Slot → Walk S → Walk S
  | _, [], s => s
  | k, slot :: rest, s => resolveSlots messages bounds (k + 1) rest (resolveSlot sha256Hex load messages bounds k slot s)

/-- What the call returns, with the heap it leaves and what it asked of the loader. -/
structure Resolved (S : Type) where
  context : Context
  items : List ImageItem
  windowStart : Nat
  heap : Heap
  store : S
  loads : List Str

def resolveImagesReported (window : ImageWindow) (context : Context) (heap : Heap) (store : S) : Resolved S :=
  if hasImageRefs heap context then
    let copied := copyMessages heap (context.messages.getD []) heap
    let slots := imageSlots copied.2 0 copied.1
    let bounds := windowBounds (slots.map (·.bytes)) window
    let s := resolveSlots sha256Hex load copied.1 bounds 0 slots ⟨copied.2, [], [], store, []⟩
    ⟨{ context with messages := some copied.1 }, s.items, bounds.start, s.heap, s.store, s.loads⟩
  else ⟨context, [], 0, heap, store, []⟩

end Call

/-! ## The copy -/

section Copy

variable {given heap : Heap} {messages : List Message}

/-- What a message is besides its content array. -/
def outline : Message → Json ⊕ List (Str × Json)
  | .other v => .inl v
  | .holds fields _ => .inr fields

/-- What the copies are of the messages they were made of. -/
structure Copied (given : Heap) (messages copies : List Message) (before after : Heap) : Prop where
  grown : before <+: after
  length : copies.length = messages.length
  cells : copies.Pairwise fun a b => ∀ f c g d, a = .holds f c → b = .holds g d → c < d
  fresh : ∀ f c, Message.holds f c ∈ copies → before.length ≤ c ∧ c < after.length
  content : copies.map (contentOf after) = messages.map (contentOf given)
  same : copies.map outline = messages.map outline

theorem copyMessages_spec (given : Heap) (messages : List Message) (heap : Heap) :
    Copied given messages (copyMessages given messages heap).1 heap (copyMessages given messages heap).2 := by
  induction messages generalizing heap with
  | nil => exact ⟨List.prefix_refl _, rfl, .nil, fun f c h => absurd h List.not_mem_nil, rfl, rfl⟩
  | cons message rest ih =>
    cases message with
    | other v =>
      have h := ih heap
      refine ⟨h.grown, congrArg (· + 1) h.length, ?_, ?_, congrArg (_ :: ·) h.content, congrArg (_ :: ·) h.same⟩
      · exact List.pairwise_cons.2 ⟨(fun b _ f c g d ha => nomatch ha), h.cells⟩
      · exact fun f c hc => h.fresh f c ((List.mem_cons.1 hc).resolve_left fun heq => nomatch heq)
    | holds fields cell =>
      have h := ih (heap ++ [given.getD cell []])
      have hlen : (heap ++ [given.getD cell []]).length = heap.length + 1 := by rw [List.length_append, List.length_singleton]
      obtain ⟨more, hmore⟩ := h.grown
      refine ⟨(List.prefix_append heap [given.getD cell []]).trans h.grown, congrArg (· + 1) h.length, ?_, ?_, ?_,
        congrArg (_ :: ·) h.same⟩
      · refine List.pairwise_cons.2 ⟨fun b hb f c g d ha hd => ?_, h.cells⟩
        cases ha
        subst hd
        have := (h.fresh g d hb).1
        omega
      · intro f c hc
        have hgrown := h.grown.length_le
        rcases List.mem_cons.1 hc with heq | hc
        · cases heq
          exact ⟨Nat.le_refl _, by change heap.length < (copyMessages given rest _).2.length; omega⟩
        · have := h.fresh f c hc
          exact ⟨by omega, this.2⟩
      · refine congrArg₂ List.cons ?_ h.content
        change some ((copyMessages given rest (heap ++ [given.getD cell []])).2.getD heap.length []) = some (given.getD cell [])
        rw [← hmore, List.append_assoc, List.getD_append_right _ _ _ _ (Nat.le_refl _), Nat.sub_self]
        rfl

theorem contentSlots_mem {m ci : Nat} {content : List Json} {slot : Slot} (h : slot ∈ contentSlots m ci content) :
    slot.m = m ∧ ci ≤ slot.ci ∧ ∃ c, content[slot.ci - ci]? = some c ∧ slotOf m slot.ci c = some slot := by
  induction content generalizing ci with
  | nil => cases h
  | cons c cs ih =>
    rcases List.mem_append.1 h with h | h
    · have hslot := Option.mem_toList.1 h
      obtain ⟨sha, -, heq⟩ := Option.map_eq_some_iff.1 hslot
      subst heq
      exact ⟨rfl, Nat.le_refl _, c, by rw [Nat.sub_self]; rfl, hslot⟩
    · obtain ⟨hm, hle, c', hc', hslot⟩ := ih h
      refine ⟨hm, by omega, c', ?_, hslot⟩
      have hsub : slot.ci - ci = (slot.ci - (ci + 1)) + 1 := by omega
      rw [hsub, List.getElem?_cons_succ]
      exact hc'

theorem contentSlots_complete {m ci i : Nat} {content : List Json} {c : Json} {slot : Slot} (hc : content[i]? = some c)
    (h : slotOf m (ci + i) c = some slot) : slot ∈ contentSlots m ci content := by
  induction content generalizing ci i with
  | nil => cases hc
  | cons c' cs ih =>
    cases i with
    | zero =>
      cases hc
      exact List.mem_append_left _ (Option.mem_toList.2 h)
    | succ i =>
      refine List.mem_append_right _ (ih hc ?_)
      rw [Nat.add_right_comm]
      exact h

theorem contentSlots_sorted (m ci : Nat) (content : List Json) :
    (contentSlots m ci content).Pairwise fun a b => a.ci < b.ci := by
  induction content generalizing ci with
  | nil => exact .nil
  | cons c cs ih =>
    refine List.pairwise_append.2 ⟨?_, ih (ci + 1), fun a ha b hb => ?_⟩
    · cases slotOf m ci c with
      | none => exact .nil
      | some slot => exact List.pairwise_singleton ..
    · obtain ⟨sha, -, heq⟩ := Option.map_eq_some_iff.1 (Option.mem_toList.1 ha)
      have hle := (contentSlots_mem hb).2.1
      rw [← heq]
      exact hle

/-- Before, in the order of the conversation. -/
def Slot.before (a b : Slot) : Prop := a.m < b.m ∨ a.m = b.m ∧ a.ci < b.ci

theorem imageSlots_mem {m : Nat} {slot : Slot} (h : slot ∈ imageSlots heap m messages) :
    m ≤ slot.m ∧ ∃ c, blockAt heap messages (slot.m - m) slot.ci = some c ∧ slotOf slot.m slot.ci c = some slot := by
  induction messages generalizing m with
  | nil => cases h
  | cons message rest ih =>
    rcases List.mem_append.1 h with h | h
    · obtain ⟨hm, -, c, hc, hslot⟩ := contentSlots_mem h
      subst hm
      refine ⟨Nat.le_refl _, c, ?_, hslot⟩
      rw [Nat.sub_self, blockAt]
      change (contentOf heap message).bind (·[slot.ci]?) = some c
      cases hcontent : contentOf heap message with
      | none =>
        rw [hcontent] at hc
        cases hc
      | some content =>
        rw [hcontent] at hc
        exact hc
    · obtain ⟨hle, c, hc, hslot⟩ := ih h
      refine ⟨by omega, c, ?_, hslot⟩
      have hsub : slot.m - m = (slot.m - (m + 1)) + 1 := by omega
      rw [hsub]
      exact hc

theorem imageSlots_complete {m i ci : Nat} {c : Json} {slot : Slot} (hc : blockAt heap messages i ci = some c)
    (h : slotOf (m + i) ci c = some slot) : slot ∈ imageSlots heap m messages := by
  induction messages generalizing m i with
  | nil => cases hc
  | cons message rest ih =>
    cases i with
    | zero =>
      refine List.mem_append_left _ (contentSlots_complete (i := ci) (c := c) ?_ ?_)
      · change (contentOf heap message).bind (·[ci]?) = some c at hc
        obtain ⟨content, hcontent, hc⟩ := Option.bind_eq_some_iff.1 hc
        rw [hcontent]
        exact hc
      · rw [Nat.zero_add]
        exact h
    | succ i =>
      refine List.mem_append_right _ (ih (i := i) hc ?_)
      rw [Nat.add_right_comm]
      exact h

theorem imageSlots_sorted (heap : Heap) (m : Nat) (messages : List Message) : (imageSlots heap m messages).Pairwise Slot.before := by
  induction messages generalizing m with
  | nil => exact .nil
  | cons message rest ih =>
    refine List.pairwise_append.2 ⟨?_, ih (m + 1), fun a ha b hb => ?_⟩
    · refine (contentSlots_sorted m 0 _).imp_of_mem fun ha hb hlt => .inr ⟨?_, hlt⟩
      rw [(contentSlots_mem ha).1, (contentSlots_mem hb).1]
    · have hle := (imageSlots_mem hb).1
      have hm := (contentSlots_mem ha).1
      exact .inl (by omega)

/-- The references are told by the contents alone. -/
theorem imageSlots_congr {after : Heap} {copies : List Message}
    (h : copies.map (contentOf after) = messages.map (contentOf heap)) (m : Nat) :
    imageSlots after m copies = imageSlots heap m messages := by
  induction copies generalizing messages m with
  | nil =>
    cases messages with
    | nil => rfl
    | cons message rest => cases h
  | cons copy copies ih =>
    cases messages with
    | nil => cases h
    | cons message rest =>
      rw [List.map_cons, List.map_cons, List.cons.injEq] at h
      rw [imageSlots, imageSlots, h.1, ih h.2]

theorem blockAt_congr {after : Heap} {copies : List Message}
    (h : copies.map (contentOf after) = messages.map (contentOf heap)) (m ci : Nat) :
    blockAt after copies m ci = blockAt heap messages m ci := by
  have hm := congrArg (·[m]?) h
  rw [List.getElem?_map, List.getElem?_map] at hm
  unfold blockAt
  cases hcopy : copies[m]? with
  | none =>
    rw [hcopy] at hm
    cases hmessage : messages[m]? with
    | none => rfl
    | some message => rw [hmessage] at hm; cases hm
  | some copy =>
    rw [hcopy] at hm
    cases hmessage : messages[m]? with
    | none => rw [hmessage] at hm; cases hm
    | some message =>
      rw [hmessage] at hm
      exact congrArg (fun content => Option.bind content (·[ci]?)) (Option.some.inj hm)

/-- What a write of one block leaves of every other. -/
theorem blockAt_setBlock {n : Nat} (hcells : messages.Pairwise fun a b => ∀ f c g d, a = .holds f c → b = .holds g d → c < d)
    (hfresh : ∀ f c, Message.holds f c ∈ messages → n ≤ c ∧ c < heap.length) {m ci : Nat} {c v : Json}
    (hc : blockAt heap messages m ci = some c) :
    (setBlock messages m ci v heap).length = heap.length ∧ (setBlock messages m ci v heap).take n = heap.take n ∧
      blockAt (setBlock messages m ci v heap) messages m ci = some v ∧
      ∀ m' ci', ¬(m' = m ∧ ci' = ci) → blockAt (setBlock messages m ci v heap) messages m' ci' = blockAt heap messages m' ci' := by
  cases hmessage : messages[m]? with
  | none =>
    unfold blockAt at hc
    rw [hmessage] at hc
    cases hc
  | some message =>
    cases message with
    | other w =>
      unfold blockAt at hc
      rw [hmessage] at hc
      cases hc
    | holds fields cell =>
      obtain ⟨hle, hlt⟩ := hfresh fields cell (List.mem_of_getElem? hmessage)
      have hblock : blockAt heap messages m ci = (heap.getD cell [])[ci]? := by
        unfold blockAt
        rw [hmessage]
        rfl
      rw [hblock] at hc
      have hset : setBlock messages m ci v heap = heap.set cell ((heap.getD cell []).set ci v) := by
        unfold setBlock
        rw [hmessage]
      have hget : ∀ d, (heap.set cell ((heap.getD cell []).set ci v)).getD d [] =
          if d = cell then (heap.getD cell []).set ci v else heap.getD d [] := by
        intro d
        rw [List.getD_eq_getElem?_getD, List.getElem?_set]
        by_cases hd : cell = d
        · subst hd
          rw [if_pos rfl, if_pos rfl, if_pos hlt, Option.getD_some]
        · rw [if_neg hd, if_neg (Ne.symm hd), List.getD_eq_getElem?_getD]
      rw [hset]
      refine ⟨List.length_set, ?_, ?_, fun m' ci' hne => ?_⟩
      · exact List.take_set_of_le hle
      · unfold blockAt
        rw [hmessage]
        change ((heap.set cell _).getD cell [])[ci]? = some v
        rw [hget, if_pos rfl, List.getElem?_set_self (List.getElem?_eq_some_iff.1 hc).1]
      · unfold blockAt
        cases hmessage' : messages[m']? with
        | none => rfl
        | some message' =>
          cases message' with
          | other w => rfl
          | holds fields' cell' =>
            change ((heap.set cell _).getD cell' [])[ci']? = (heap.getD cell' [])[ci']?
            rw [hget]
            by_cases hm : m' = m
            · subst hm
              rw [hmessage] at hmessage'
              cases hmessage'
              rw [if_pos rfl, List.getElem?_set_ne fun heq => hne ⟨rfl, heq.symm⟩]
            · rw [if_neg]
              rintro rfl
              obtain ⟨hi, hmi⟩ := List.getElem?_eq_some_iff.1 hmessage
              obtain ⟨hi', hmi'⟩ := List.getElem?_eq_some_iff.1 hmessage'
              rcases Nat.lt_or_gt_of_ne hm with hlt' | hgt
              · exact absurd (List.pairwise_iff_getElem.1 hcells m' m hi' hi hlt' _ _ _ _ hmi' hmi) (Nat.lt_irrefl _)
              · exact absurd (List.pairwise_iff_getElem.1 hcells m m' hi hi' hgt _ _ _ _ hmi hmi') (Nat.lt_irrefl _)

end Copy

/-! ## What becomes of a reference -/

section Outcome

variable {S : Type} (sha256Hex : List UInt8 → Str) (load : Option (ImageLoader S)) (bounds : Bounds)

/-- A read of the store, or that there is none. -/
inductive ReadOf (sha : Str) : Read → Prop where
  | unreachable (hload : load = none) : ReadOf sha (.problem (js "no image store is reachable here") .read_error none)
  | loaded (l : ImageLoader S) (s : S) (hload : load = some l) : ReadOf sha (readOf sha256Hex sha (l sha s).1)

/-- Why the image of a reference was not sent, and how many bytes were read. -/
inductive FailedFor (slot : Slot) : ImageItemReason → Option Nat → Prop where
  | unreachable (hload : load = none) : FailedFor slot .read_error none
  | threw (l : ImageLoader S) (s : S) (message : Str) (hload : load = some l) (hread : (l slot.sha s).1 = .throws message) :
      FailedFor slot .read_error none
  | missing (l : ImageLoader S) (s : S) (hload : load = some l) (hread : (l slot.sha s).1 = .nothing) :
      FailedFor slot .missing none
  | changed (l : ImageLoader S) (s : S) (bytes : List UInt8) (hload : load = some l) (hread : (l slot.sha s).1 = .bytes bytes)
      (hhash : sha256Hex bytes ≠ slot.sha) : FailedFor slot .read_error (some bytes.length)
  | sized (l : ImageLoader S) (s : S) (bytes : List UInt8) (d : Nat) (hload : load = some l)
      (hread : (l slot.sha s).1 = .bytes bytes) (hhash : sha256Hex bytes = slot.sha) (hd : slot.declared = some d)
      (hne : bytes.length ≠ d) : FailedFor slot .size_mismatch (some bytes.length)

/-- What the `k`-th reference, a block `c`, is replaced by, and what is reported of it. -/
inductive Handled (k : Nat) (slot : Slot) (c : Json) : Json → ImageItem → Prop where
  | omitted (hk : k < bounds.start) : Handled k slot c (textBlock (omittedImageText slot.mimeType slot.sha))
      ⟨k, slot.sha, slot.declared, none, .omitted, some (if k < bounds.fits then .over_budget else .before_window)⟩
  | included (l : ImageLoader S) (s : S) (bytes : List UInt8) (hk : bounds.start ≤ k) (hload : load = some l)
      (hread : (l slot.sha s).1 = .bytes bytes) (hhash : sha256Hex bytes = slot.sha)
      (hd : ∀ d, slot.declared = some d → bytes.length = d) : Handled k slot c (withData c (base64 bytes))
      ⟨k, slot.sha, slot.declared, some bytes.length, .included_in_request, none⟩
  | failed (problem : Str) (reason : ImageItemReason) (length : Option Nat) (hk : bounds.start ≤ k)
      (hfailed : FailedFor sha256Hex load slot reason length) : Handled k slot c
      (textBlock (js "\n\n(an image could not be loaded: " ++ problem ++ js ")"))
      ⟨k, slot.sha, slot.declared, length, .load_failed, some reason⟩

variable {sha256Hex load}

theorem heldTo_cases {slot : Slot} {r : Read} (h : ReadOf sha256Hex load slot.sha r) :
    (∃ problem reason length, heldTo slot.declared r = .problem problem reason length ∧
      FailedFor sha256Hex load slot reason length) ∨
      ∃ l s bytes, heldTo slot.declared r = .data (base64 bytes) bytes.length ∧ load = some l ∧
        (l slot.sha s).1 = .bytes bytes ∧ sha256Hex bytes = slot.sha ∧ ∀ d, slot.declared = some d → bytes.length = d := by
  cases h with
  | unreachable hload => exact .inl ⟨_, _, _, rfl, .unreachable hload⟩
  | loaded l s hload =>
    cases hread : (l slot.sha s).1 with
    | throws message => exact .inl ⟨_, _, _, rfl, .threw l s message hload hread⟩
    | nothing => exact .inl ⟨_, _, _, rfl, .missing l s hload hread⟩
    | bytes b =>
      unfold readOf
      by_cases hhash : sha256Hex b = slot.sha
      · dsimp only
        rw [if_neg fun hne => hne hhash]
        cases hd : slot.declared with
        | none => exact .inr ⟨l, s, b, rfl, hload, hread, hhash, fun d hd => nomatch hd⟩
        | some d =>
          by_cases hlen : b.length = d
          · refine .inr ⟨l, s, b, if_neg fun hne => hne hlen, hload, hread, hhash, fun d' hd' => ?_⟩
            cases hd'
            exact hlen
          · exact .inl ⟨_, _, _, if_pos hlen, .sized l s b d hload hread hhash hd hlen⟩
      · dsimp only
        rw [if_pos hhash]
        exact .inl ⟨_, _, _, rfl, .changed l s b hload hread hhash⟩

end Outcome

/-! ## The walk -/

section Walks

variable {S : Type} {sha256Hex : List UInt8 → Str} {load : Option (ImageLoader S)} {bounds : Bounds}
  {messages : List Message} {start : Heap} {n : Nat}

/-- Where the walk stands once it has been past some references. -/
structure Walked (sha256Hex : List UInt8 → Str) (load : Option (ImageLoader S)) (bounds : Bounds) (messages : List Message)
    (start : Heap) (n : Nat) (done : List Slot) (s : Walk S) : Prop where
  items : s.items.length = done.length
  size : s.heap.length = start.length
  given : s.heap.take n = start.take n
  others : ∀ m ci, (∀ slot ∈ done, ¬(m = slot.m ∧ ci = slot.ci)) → blockAt s.heap messages m ci = blockAt start messages m ci
  handled : ∀ k slot, done[k]? = some slot → ∃ c c' item, blockAt start messages slot.m slot.ci = some c ∧
    blockAt s.heap messages slot.m slot.ci = some c' ∧ s.items[k]? = some item ∧
    Handled sha256Hex load bounds k slot c c' item
  memo : ∀ sha r, s.read.get sha = some r → ReadOf sha256Hex load sha r
  loads : s.loads.Nodup ∧ ∀ sha ∈ s.loads, (s.read.get sha).isSome = true ∧
    ∃ k slot, done[k]? = some slot ∧ bounds.start ≤ k ∧ slot.sha = sha

theorem get_set (m : Map Read) (key other : Str) (r : Read) :
    (m.set key r).get other = if key = other then some r else m.get other := by
  have hone := Table.one_upsert (fun p : Str × Read => p.1) (fun p => (p.1, r)) (fun _ => rfl) (key, r) other m
  unfold Map.get Map.set
  rw [hone]
  split
  · cases Table.one (fun p : Str × Read => p.1 == other) m <;> rfl
  · rfl

/-- A read through the memo. -/
theorem fetchOne_spec {done : List Slot} {s : Walk S} (slot : Slot)
    (h : Walked sha256Hex load bounds messages start n done s) (hk : bounds.start ≤ done.length) :
    ReadOf sha256Hex load slot.sha (fetchOne sha256Hex load slot.sha s).1 ∧
      (fetchOne sha256Hex load slot.sha s).2.heap = s.heap ∧ (fetchOne sha256Hex load slot.sha s).2.items = s.items ∧
      (∀ sha r, (fetchOne sha256Hex load slot.sha s).2.read.get sha = some r → ReadOf sha256Hex load sha r) ∧
      (fetchOne sha256Hex load slot.sha s).2.loads.Nodup ∧
      ∀ sha ∈ (fetchOne sha256Hex load slot.sha s).2.loads,
        ((fetchOne sha256Hex load slot.sha s).2.read.get sha).isSome = true ∧
          ∃ k x, (done ++ [slot])[k]? = some x ∧ bounds.start ≤ k ∧ x.sha = sha := by
  have hold : ∀ sha, (∃ k x, done[k]? = some x ∧ bounds.start ≤ k ∧ x.sha = sha) →
      ∃ k x, (done ++ [slot])[k]? = some x ∧ bounds.start ≤ k ∧ x.sha = sha := by
    rintro sha ⟨k, x, hx, hk, hsha⟩
    refine ⟨k, x, ?_, hk, hsha⟩
    rw [List.getElem?_append_left (List.getElem?_eq_some_iff.1 hx).1]
    exact hx
  unfold fetchOne
  cases hread : s.read.get slot.sha with
  | some r => exact ⟨h.memo _ _ hread, rfl, rfl, h.memo, h.loads.1, fun sha hsha => ⟨(h.loads.2 sha hsha).1, hold sha (h.loads.2 sha hsha).2⟩⟩
  | none =>
    have hset : ∀ r, ReadOf sha256Hex load slot.sha r → ∀ sha r', (s.read.set slot.sha r).get sha = some r' →
        ReadOf sha256Hex load sha r' := by
      intro r hr sha r' hget
      rw [get_set] at hget
      split at hget
      · next heq =>
        subst heq
        cases hget
        exact hr
      · exact h.memo sha r' hget
    have hkept : ∀ r sha, sha ∈ s.loads → ((s.read.set slot.sha r).get sha).isSome = true := by
      intro r sha hsha
      rw [get_set]
      split
      · rfl
      · exact (h.loads.2 sha hsha).1
    cases hload : load with
    | none =>
      subst hload
      exact ⟨.unreachable rfl, rfl, rfl, hset _ (.unreachable rfl), h.loads.1,
        fun sha hsha => ⟨hkept _ sha hsha, hold sha (h.loads.2 sha hsha).2⟩⟩
    | some l =>
      subst hload
      refine ⟨.loaded l s.store rfl, rfl, rfl, hset _ (.loaded l s.store rfl), ?_, fun sha hsha => ?_⟩
      · refine List.nodup_append.2 ⟨h.loads.1, List.nodup_singleton _, fun a ha b hb heq => ?_⟩
        rw [List.mem_singleton.1 hb] at heq
        subst heq
        have := (h.loads.2 _ ha).1
        rw [hread] at this
        cases this
      · rcases List.mem_append.1 hsha with hsha | hsha
        · exact ⟨hkept _ sha hsha, hold sha (h.loads.2 sha hsha).2⟩
        · rw [List.mem_singleton.1 hsha]
          refine ⟨?_, done.length, slot, ?_, hk, rfl⟩
          · change ((s.read.set slot.sha _).get slot.sha).isSome = true
            rw [get_set, if_pos rfl]
            rfl
          · rw [List.getElem?_append_right (Nat.le_refl _), Nat.sub_self]
            rfl

theorem get_done {done : List Slot} {slot x : Slot} {k : Nat} (h : (done ++ [slot])[k]? = some x) :
    done[k]? = some x ∨ k = done.length ∧ x = slot := by
  rcases Nat.lt_or_ge k done.length with hlt | hge
  · rw [List.getElem?_append_left hlt] at h
    exact .inl h
  · rw [List.getElem?_append_right hge] at h
    obtain ⟨hk, heq⟩ := List.getElem?_eq_some_iff.1 h
    have hzero : k - done.length = 0 := by
      rw [List.length_singleton] at hk
      omega
    refine .inr ⟨by omega, ?_⟩
    simp only [hzero] at heq
    exact heq.symm

/-- A reference replaced, and the ones before it left as they are. -/
theorem Walked.write {done : List Slot} {s t : Walk S} {slot : Slot} {c v : Json} {item : ImageItem}
    (h : Walked sha256Hex load bounds messages start n done s)
    (hcells : messages.Pairwise fun a b => ∀ f c g d, a = .holds f c → b = .holds g d → c < d)
    (hfresh : ∀ f c, Message.holds f c ∈ messages → n ≤ c ∧ c < start.length)
    (hc : blockAt start messages slot.m slot.ci = some c)
    (hnew : ∀ x ∈ done, ¬(slot.m = x.m ∧ slot.ci = x.ci))
    (hheap : t.heap = setBlock messages slot.m slot.ci v s.heap) (hitems : t.items = s.items ++ [item])
    (hhandled : Handled sha256Hex load bounds done.length slot c v item)
    (hmemo : ∀ sha r, t.read.get sha = some r → ReadOf sha256Hex load sha r)
    (hloads : t.loads.Nodup ∧ ∀ sha ∈ t.loads, (t.read.get sha).isSome = true ∧
      ∃ k x, (done ++ [slot])[k]? = some x ∧ bounds.start ≤ k ∧ x.sha = sha) :
    Walked sha256Hex load bounds messages start n (done ++ [slot]) t := by
  have hhere : blockAt s.heap messages slot.m slot.ci = some c := (h.others slot.m slot.ci hnew).trans hc
  obtain ⟨hlen, htake, hself, hother⟩ := blockAt_setBlock (v := v) hcells (fun f d hd => h.size ▸ hfresh f d hd) hhere
  refine ⟨?_, ?_, ?_, fun m ci hno => ?_, fun k x hx => ?_, hmemo, hloads⟩
  · rw [hitems, List.length_append, List.length_append, h.items, List.length_singleton, List.length_singleton]
  · rw [hheap, hlen, h.size]
  · rw [hheap, htake, h.given]
  · rw [hheap, hother m ci (hno slot (List.mem_append_right _ List.mem_cons_self))]
    exact h.others m ci fun x hx => hno x (List.mem_append_left _ hx)
  · rcases get_done hx with hx | ⟨rfl, rfl⟩
    · obtain ⟨c', v', item', hc', hv', hitem', hhandled'⟩ := h.handled k x hx
      refine ⟨c', v', item', hc', ?_, ?_, hhandled'⟩
      · rw [hheap, hother]
        · exact hv'
        · exact fun heq => hnew x (List.mem_of_getElem? hx) ⟨heq.1.symm, heq.2.symm⟩
      · rw [hitems, List.getElem?_append_left (h.items ▸ (List.getElem?_eq_some_iff.1 hx).1)]
        exact hitem'
    · refine ⟨c, v, item, hc, ?_, ?_, hhandled⟩
      · rw [hheap]
        exact hself
      · rw [hitems, List.getElem?_append_right (Nat.le_of_eq h.items), h.items, Nat.sub_self]
        rfl

theorem resolveSlot_walked {done : List Slot} {s : Walk S} {slot : Slot} {c : Json}
    (h : Walked sha256Hex load bounds messages start n done s)
    (hcells : messages.Pairwise fun a b => ∀ f c g d, a = .holds f c → b = .holds g d → c < d)
    (hfresh : ∀ f c, Message.holds f c ∈ messages → n ≤ c ∧ c < start.length)
    (hc : blockAt start messages slot.m slot.ci = some c)
    (hnew : ∀ x ∈ done, ¬(slot.m = x.m ∧ slot.ci = x.ci)) :
    Walked sha256Hex load bounds messages start n (done ++ [slot])
      (resolveSlot sha256Hex load messages bounds done.length slot s) := by
  unfold resolveSlot
  split
  · next hk =>
    refine h.write hcells hfresh hc hnew rfl rfl (.omitted hk) h.memo ⟨h.loads.1, fun sha hsha => ⟨(h.loads.2 sha hsha).1, ?_⟩⟩
    obtain ⟨k, x, hx, hle, heq⟩ := (h.loads.2 sha hsha).2
    refine ⟨k, x, ?_, hle, heq⟩
    rw [List.getElem?_append_left (List.getElem?_eq_some_iff.1 hx).1]
    exact hx
  · next hk =>
    have hk := Nat.le_of_not_lt hk
    obtain ⟨hread, hheap, hitems, hmemo, hnodup, hloads⟩ := fetchOne_spec slot h hk
    have hblock : blockAt s.heap messages slot.m slot.ci = some c := (h.others slot.m slot.ci hnew).trans hc
    dsimp only
    rcases heldTo_cases hread with ⟨problem, reason, length, hheld, hfailed⟩ | ⟨l, s', bytes, hheld, hload, hbytes, hhash, hd⟩
    · rw [hheld]
      refine h.write hcells hfresh hc hnew ?_ ?_ (.failed problem reason length hk hfailed) hmemo ⟨hnodup, hloads⟩
      · exact congrArg (setBlock messages slot.m slot.ci _) hheap
      · exact congrArg (· ++ _) hitems
    · rw [hheld]
      refine h.write hcells hfresh hc hnew ?_ ?_ (.included l s' bytes hk hload hbytes hhash hd) hmemo ⟨hnodup, hloads⟩
      · dsimp only
        rw [hheap, hblock]
        rfl
      · exact congrArg (· ++ _) hitems

theorem resolveSlots_walked (rest : List Slot) {done : List Slot} {s : Walk S}
    (h : Walked sha256Hex load bounds messages start n done s)
    (hcells : messages.Pairwise fun a b => ∀ f c g d, a = .holds f c → b = .holds g d → c < d)
    (hfresh : ∀ f c, Message.holds f c ∈ messages → n ≤ c ∧ c < start.length)
    (hrest : ∀ slot ∈ rest, ∃ c, blockAt start messages slot.m slot.ci = some c)
    (hsorted : (done ++ rest).Pairwise Slot.before) :
    Walked sha256Hex load bounds messages start n (done ++ rest)
      (resolveSlots sha256Hex load messages bounds done.length rest s) := by
  induction rest generalizing done s with
  | nil =>
    rw [List.append_nil]
    exact h
  | cons slot rest ih =>
    obtain ⟨c, hc⟩ := hrest slot List.mem_cons_self
    have hnew : ∀ x ∈ done, ¬(slot.m = x.m ∧ slot.ci = x.ci) := by
      rintro x hx ⟨hm, hci⟩
      rcases (List.pairwise_append.1 hsorted).2.2 x hx slot List.mem_cons_self with hlt | ⟨-, hlt⟩
      · omega
      · omega
    have hstep := resolveSlot_walked h hcells hfresh hc hnew
    have hsplit : done ++ slot :: rest = (done ++ [slot]) ++ rest := by rw [List.append_assoc, List.singleton_append]
    have hlen : done.length + 1 = (done ++ [slot]).length := by rw [List.length_append, List.length_singleton]
    rw [resolveSlots, hlen]
    rw [hsplit] at hsorted ⊢
    exact ih hstep (fun x hx => hrest x (List.mem_cons_of_mem _ hx)) hsorted

end Walks

/-! ## What is sent -/

section Sent

theorem colon_base64 (bytes : List UInt8) : unit ':' ∉ base64 bytes := by
  intro h
  have hlt : ∀ u ∈ bytes.map fun b => b.toUInt16, u < 256 := by
    intro u hu
    obtain ⟨b, -, rfl⟩ := List.mem_map.1 hu
    rw [UInt16.lt_iff_toNat_lt, UInt8.toNat_toUInt16]
    exact b.toNat_lt
  rcases List.mem_append.1 h with h | h
  · obtain ⟨n, hn, heq⟩ := mem_encodeSextets hlt h
    have hsextet := sextetOf_sextetUnit hn
    rw [← heq] at hsextet
    cases hsextet
  · exact absurd (List.eq_of_mem_replicate h) (by decide)

/-- What was sent in the place of a reference is none. -/
theorem blockHash_textBlock (text : Str) : blockHash (textBlock text) = none := by
  refine if_neg fun h => ?_
  exact absurd (Option.some.inj h) (by decide)

theorem field?_set (fields : List (Str × Json)) (v : Json) : (Json.obj (Map.set fields (js "data") v)).field? (js "data") = some v := by
  have hone := Table.one_upsert (fun p : Str × Json => p.1) (fun p => (p.1, v)) (fun _ => rfl) (js "data", v) (js "data") fields
  rw [if_pos rfl] at hone
  unfold Json.field?
  change (Table.one (fun p : Str × Json => p.1 == js "data") (Map.set fields (js "data") v)).map (·.2) = some v
  unfold Map.set
  rw [hone]
  cases Table.one (fun p : Str × Json => p.1 == js "data") fields <;> rfl

theorem blockHash_withData {c : Json} {sha : Str} (h : blockHash c = some sha) (bytes : List UInt8) :
    blockHash (withData c (base64 bytes)) = none := by
  cases c with
  | obj fields =>
    have hdata : (withData (.obj fields) (base64 bytes)).field? (js "data") = some (.str (base64 bytes)) := field?_set fields _
    unfold blockHash
    rw [hdata]
    split
    · unfold imageRefHash refOf
      have hno : startsWith IMAGE_REF_PREFIX (base64 bytes) = false := by
        rw [Bool.eq_false_iff]
        intro hstart
        have hmem : unit ':' ∈ IMAGE_REF_PREFIX := by decide
        exact colon_base64 bytes ((List.isPrefixOf_iff_prefix.1 hstart).subset hmem)
      dsimp only
      rw [hno]
      rfl
    · rfl
  | _ => exact absurd h (by unfold blockHash Json.field?; exact fun heq => nomatch heq)

theorem imageRefBytes_declared {data : Option Json} {d : Nat} (h : imageRefDeclaredBytes data = some d) (hpos : 0 < d)
    (hle : d ≤ MAX_IMAGE_BYTES) : imageRefBytes data = d := by
  unfold imageRefDeclaredBytes refOf at h
  split at h
  · next s =>
    split at h
    · obtain ⟨digits, hdigits, rfl⟩ := Option.map_eq_some_iff.1 h
      unfold imageRefBytes
      dsimp only
      rw [hdigits]
      dsimp only
      rw [if_pos ⟨hpos, hle⟩]
    · cases h
  · cases h

theorem imageRefBytes_undeclared {data : Option Json} {sha : Str} (hsha : imageRefHash data = some sha)
    (h : imageRefDeclaredBytes data = none) : imageRefBytes data = MAX_IMAGE_BYTES := by
  obtain ⟨parts, hparts, -⟩ := Option.map_eq_some_iff.1 hsha
  unfold imageRefDeclaredBytes at h
  rw [hparts, Option.bind_some, Option.map_eq_none_iff] at h
  unfold refOf at hparts
  split at hparts
  · split at hparts
    · unfold imageRefBytes
      dsimp only
      rw [hparts, Option.bind_some, h]
    · cases hparts
  · cases hparts

/-- The window counts at least the bytes an image of the declared size has. -/
theorem le_slotBytes {m ci n : Nat} {c : Json} {slot : Slot} (h : slotOf m ci c = some slot)
    (hd : ∀ d, slot.declared = some d → n = d) (hn : n ≤ MAX_IMAGE_BYTES) : n ≤ slot.bytes := by
  obtain ⟨sha, hsha, rfl⟩ := Option.map_eq_some_iff.1 h
  have hhash : imageRefHash (c.field? (js "data")) = some sha := by
    unfold blockHash at hsha
    split at hsha
    · exact hsha
    · cases hsha
  change n ≤ imageRefBytes (c.field? (js "data"))
  cases hdeclared : imageRefDeclaredBytes (c.field? (js "data")) with
  | none =>
    rw [imageRefBytes_undeclared hhash hdeclared]
    exact hn
  | some d =>
    have hnd : n = d := hd d hdeclared
    subst hnd
    rcases Nat.eq_zero_or_pos n with hzero | hpos
    · omega
    · rw [imageRefBytes_declared hdeclared hpos hn]

end Sent

/-! ## The request -/

section Request

variable {S : Type}

/-- The bytes an item says are in the request. -/
def sentBytes (item : ImageItem) : Nat := if item.result = .included_in_request then item.readBytes.getD 0 else 0

/-- What the call does with a context: each reference handled, in order, and everything else as it was. -/
structure ResolvedAs (sha256Hex : List UInt8 → Str) (load : Option (ImageLoader S)) (window : ImageWindow) (context : Context)
    (heap : Heap) (slots : List Slot) (out : Resolved S) : Prop where
  untouched : heap <+: out.heap
  fields : out.context.fields = context.fields
  outlines : out.context.messages.map (·.map outline) = context.messages.map (·.map outline)
  same : ∀ m ci c, blockAt heap (context.messages.getD []) m ci = some c → blockHash c = none →
    blockAt out.heap (out.context.messages.getD []) m ci = some c
  added : ∀ m ci, blockAt heap (context.messages.getD []) m ci = none →
    blockAt out.heap (out.context.messages.getD []) m ci = none
  every : ∀ m ci c sha, blockAt heap (context.messages.getD []) m ci = some c → blockHash c = some sha →
    ∃ slot ∈ slots, slot.m = m ∧ slot.ci = ci
  handled : ∀ k slot, slots[k]? = some slot → ∃ c c' item, blockAt heap (context.messages.getD []) slot.m slot.ci = some c ∧
    slotOf slot.m slot.ci c = some slot ∧ blockAt out.heap (out.context.messages.getD []) slot.m slot.ci = some c' ∧
    out.items[k]? = some item ∧
    Handled sha256Hex load (windowBounds (slots.map (·.bytes)) window) k slot c c' item
  replaced : ∀ m ci c, blockAt out.heap (out.context.messages.getD []) m ci = some c → blockHash c = none
  items : out.items.length = slots.length
  start : out.windowStart = windowStart (slots.map (·.bytes)) window
  loads : out.loads.Nodup ∧ ∀ sha ∈ out.loads, ∃ k slot, slots[k]? = some slot ∧
    windowStart (slots.map (·.bytes)) window ≤ k ∧ slot.sha = sha

variable {sha256Hex : List UInt8 → Str} {load : Option (ImageLoader S)} {window : ImageWindow} {context : Context} {heap : Heap}
  {store : S}

theorem slotOf_some (m ci : Nat) {c : Json} {sha : Str} (h : blockHash c = some sha) :
    ∃ slot, slotOf m ci c = some slot ∧ slot.m = m ∧ slot.ci = ci := by
  unfold slotOf
  rw [h]
  exact ⟨_, rfl, rfl, rfl⟩

theorem hasImageRefs_slots (h : hasImageRefs heap context = false) : imageSlots heap 0 (context.messages.getD []) = [] := by
  refine List.eq_nil_iff_forall_not_mem.2 fun slot hslot => ?_
  obtain ⟨-, c, hc, hslot⟩ := imageSlots_mem hslot
  obtain ⟨sha, hsha, -⟩ := Option.map_eq_some_iff.1 hslot
  obtain ⟨content, hcontent, hc⟩ := Option.bind_eq_some_iff.1 hc
  obtain ⟨message, hmessage, hcontent⟩ := Option.bind_eq_some_iff.1 hcontent
  rw [Bool.eq_false_iff] at h
  refine h (List.any_eq_true.2 ⟨message, List.mem_of_getElem? hmessage, List.any_eq_true.2 ⟨c, ?_, ?_⟩⟩)
  · rw [hcontent]
    exact List.mem_of_getElem? hc
  · rw [hsha]
    rfl

theorem hasImageRefs_messages (h : hasImageRefs heap context = true) : context.messages = some (context.messages.getD []) := by
  unfold hasImageRefs at h
  cases hmessages : context.messages with
  | none =>
    rw [hmessages] at h
    cases h
  | some messages => rfl

/-- What becomes of each reference of a context, and that nothing else of it changes. -/
theorem resolveImagesReported_spec (sha256Hex : List UInt8 → Str) (load : Option (ImageLoader S)) (window : ImageWindow)
    (context : Context) (heap : Heap) (store : S) :
    ResolvedAs sha256Hex load window context heap (imageSlots heap 0 (context.messages.getD []))
      (resolveImagesReported sha256Hex load window context heap store) := by
  unfold resolveImagesReported
  cases hrefs : hasImageRefs heap context with
  | false =>
    have hslots := hasImageRefs_slots hrefs
    rw [if_neg Bool.false_ne_true, hslots]
    have hnone : ∀ m ci c, blockAt heap (context.messages.getD []) m ci = some c → blockHash c = none := by
      intro m ci c hc
      cases hsha : blockHash c with
      | none => rfl
      | some sha =>
        obtain ⟨slot, hslot, -⟩ := slotOf_some (0 + m) ci hsha
        have hmem := imageSlots_complete (m := 0) hc hslot
        rw [hslots] at hmem
        cases hmem
    refine ⟨List.prefix_refl _, rfl, rfl, fun m ci c hc _ => hc, fun m ci hc => hc, fun m ci c sha hc hsha => ?_,
      (fun k slot hk => nomatch hk), hnone, rfl, rfl, List.nodup_nil, fun sha hsha => absurd hsha List.not_mem_nil⟩
    rw [hnone m ci c hc] at hsha
    cases hsha
  | true =>
    rw [if_pos rfl]
    have hcopied := copyMessages_spec heap (context.messages.getD []) heap
    have hslots := imageSlots_congr hcopied.content 0
    have hblocks := blockAt_congr hcopied.content
    dsimp only
    rw [hslots]
    have hstart : Walked sha256Hex load (windowBounds ((imageSlots heap 0 (context.messages.getD [])).map (·.bytes)) window)
        (copyMessages heap (context.messages.getD []) heap).1 (copyMessages heap (context.messages.getD []) heap).2 heap.length []
        ⟨(copyMessages heap (context.messages.getD []) heap).2, [], [], store, []⟩ :=
      ⟨rfl, rfl, rfl, fun _ _ _ => rfl, (fun k slot hk => nomatch hk), (fun sha r hr => nomatch hr), List.nodup_nil,
        fun sha hsha => absurd hsha List.not_mem_nil⟩
    have hwalk := resolveSlots_walked (imageSlots heap 0 (context.messages.getD [])) hstart hcopied.cells hcopied.fresh
      (fun slot hslot => by
        obtain ⟨-, c, hc, -⟩ := imageSlots_mem hslot
        exact ⟨c, (hblocks slot.m slot.ci).trans hc⟩)
      (imageSlots_sorted heap 0 _)
    rw [List.nil_append] at hwalk
    generalize hs : resolveSlots sha256Hex load (copyMessages heap (context.messages.getD []) heap).1
      (windowBounds ((imageSlots heap 0 (context.messages.getD [])).map (·.bytes)) window) 0
      (imageSlots heap 0 (context.messages.getD [])) ⟨(copyMessages heap (context.messages.getD []) heap).2, [], [], store, []⟩ = s
    rw [show ([] : List Slot).length = 0 from rfl, hs] at hwalk
    have hhandled : ∀ k slot, (imageSlots heap 0 (context.messages.getD []))[k]? = some slot → ∃ c c' item,
        blockAt heap (context.messages.getD []) slot.m slot.ci = some c ∧ slotOf slot.m slot.ci c = some slot ∧
        blockAt s.heap (copyMessages heap (context.messages.getD []) heap).1 slot.m slot.ci = some c' ∧
        s.items[k]? = some item ∧ Handled sha256Hex load
          (windowBounds ((imageSlots heap 0 (context.messages.getD [])).map (·.bytes)) window) k slot c c' item := by
      intro k slot hk
      obtain ⟨c, c', item, hc, hc', hitem, hdone⟩ := hwalk.handled k slot hk
      rw [hblocks] at hc
      obtain ⟨-, c₀, hc₀, hslot⟩ := imageSlots_mem (List.mem_of_getElem? hk)
      rw [Nat.sub_zero, hc] at hc₀
      cases hc₀
      exact ⟨c, c', item, hc, hslot, hc', hitem, hdone⟩
    -- a block is a reference's, or what it was
    have hcases : ∀ m ci, (∃ (k : Nat) (slot : Slot), (imageSlots heap 0 (context.messages.getD []))[k]? = some slot ∧
        m = slot.m ∧ ci = slot.ci) ∨
        (∀ slot ∈ imageSlots heap 0 (context.messages.getD []), ¬(m = slot.m ∧ ci = slot.ci)) ∧
        blockAt s.heap (copyMessages heap (context.messages.getD []) heap).1 m ci =
          blockAt heap (context.messages.getD []) m ci := by
      intro m ci
      by_cases hslot : ∃ slot ∈ imageSlots heap 0 (context.messages.getD []), m = slot.m ∧ ci = slot.ci
      · obtain ⟨slot, hmem, heq⟩ := hslot
        obtain ⟨k, hk⟩ := List.getElem?_of_mem hmem
        exact .inl ⟨k, slot, hk, heq⟩
      · have hno : ∀ slot ∈ imageSlots heap 0 (context.messages.getD []), ¬(m = slot.m ∧ ci = slot.ci) :=
          fun slot hmem heq => hslot ⟨slot, hmem, heq⟩
        exact .inr ⟨hno, (hwalk.others m ci hno).trans (hblocks m ci)⟩
    have hevery : ∀ m ci c sha, blockAt heap (context.messages.getD []) m ci = some c → blockHash c = some sha →
        ∃ slot ∈ imageSlots heap 0 (context.messages.getD []), slot.m = m ∧ slot.ci = ci := by
      intro m ci c sha hc hsha
      obtain ⟨slot, hslot, hm, hci⟩ := slotOf_some (0 + m) ci hsha
      exact ⟨slot, imageSlots_complete hc hslot, hm.trans (Nat.zero_add m), hci⟩
    refine ⟨?_, rfl, ?_, fun m ci c hc hno => ?_, fun m ci hc => ?_, hevery, hhandled, fun m ci c hc => ?_, hwalk.items, rfl,
      hwalk.loads.1, fun sha hsha => (hwalk.loads.2 sha hsha).2⟩
    · refine List.prefix_iff_eq_take.2 ?_
      rw [hwalk.given]
      exact List.prefix_iff_eq_take.1 hcopied.grown
    · rw [hasImageRefs_messages hrefs]
      exact congrArg some hcopied.same
    · rcases hcases m ci with ⟨k, slot, hk, rfl, rfl⟩ | ⟨hno', heq⟩
      · obtain ⟨c₀, -, -, hc₀, hslot, -⟩ := hhandled k slot hk
        rw [hc] at hc₀
        cases hc₀
        unfold slotOf at hslot
        rw [hno] at hslot
        cases hslot
      · exact heq.trans hc
    · rcases hcases m ci with ⟨k, slot, hk, rfl, rfl⟩ | ⟨hno', heq⟩
      · obtain ⟨c₀, -, -, hc₀, -⟩ := hhandled k slot hk
        rw [hc] at hc₀
        cases hc₀
      · exact heq.trans hc
    · rcases hcases m ci with ⟨k, slot, hk, rfl, rfl⟩ | ⟨hno', heq⟩
      · obtain ⟨c₀, c', item, -, hslot, hc', -, hdone⟩ := hhandled k slot hk
        have hcc : c' = c := Option.some.inj (hc'.symm.trans hc)
        subst hcc
        obtain ⟨sha, hsha, -⟩ := Option.map_eq_some_iff.1 hslot
        cases hdone with
        | omitted => exact blockHash_textBlock _
        | included => exact blockHash_withData hsha _
        | failed => exact blockHash_textBlock _
      · have hc : blockAt heap (context.messages.getD []) m ci = some c := heq.symm.trans hc
        cases hsha : blockHash c with
        | none => rfl
        | some sha =>
          obtain ⟨slot, hmem, hm, hci⟩ := hevery m ci c sha hc hsha
          exact absurd ⟨hm.symm, hci.symm⟩ (hno' slot hmem)

theorem sum_le_drop {xs bs : List Nat} (start : Nat) (hlen : xs.length = bs.length)
    (h : ∀ k x b, xs[k]? = some x → bs[k]? = some b → (k < start → x = 0) ∧ x ≤ b) : xs.sum ≤ (bs.drop start).sum := by
  induction xs generalizing bs start with
  | nil => exact Nat.zero_le _
  | cons x xs ih =>
    cases bs with
    | nil => cases hlen
    | cons b bs =>
      have hhere := h 0 x b rfl rfl
      have hlen := Nat.succ.inj hlen
      cases start with
      | zero =>
        have hrest := ih 0 hlen fun k x b hx hb => ⟨(fun hk => absurd hk (Nat.not_lt_zero k)), (h (k + 1) x b hx hb).2⟩
        rw [List.drop_zero] at hrest ⊢
        rw [List.sum_cons, List.sum_cons]
        exact Nat.add_le_add hhere.2 hrest
      | succ start =>
        have hrest := ih start hlen fun k x b hx hb =>
          ⟨fun hk => (h (k + 1) x b hx hb).1 (Nat.succ_lt_succ hk), (h (k + 1) x b hx hb).2⟩
        rw [List.sum_cons, hhere.1 (Nat.succ_pos start), Nat.zero_add]
        exact hrest

/-- The bytes sent are within the window, whatever the references declare. -/
theorem resolveImagesReported_bytes
    (hload : ∀ l sha s b, load = some l → (l sha s).1 = .bytes b → b.length ≤ MAX_IMAGE_BYTES) :
    ((resolveImagesReported sha256Hex load window context heap store).items.map sentBytes).sum ≤ window.maxBytes := by
  have h := resolveImagesReported_spec sha256Hex load window context heap store
  refine Nat.le_trans (sum_le_drop (windowStart ((imageSlots heap 0 (context.messages.getD [])).map (·.bytes)) window)
    ?_ fun k x b hx hb => ?_) (start_fits _ window).2
  · rw [List.length_map, List.length_map, h.items]
  · rw [List.getElem?_map] at hx hb
    obtain ⟨item, hitem, rfl⟩ := Option.map_eq_some_iff.1 hx
    obtain ⟨slot, hslot, rfl⟩ := Option.map_eq_some_iff.1 hb
    obtain ⟨c, c', item', -, hof, -, hitem', hdone⟩ := h.handled k slot hslot
    rw [hitem] at hitem'
    cases hitem'
    cases hdone with
    | omitted hk => exact ⟨fun _ => rfl, Nat.zero_le _⟩
    | failed problem reason length hk => exact ⟨fun _ => rfl, Nat.zero_le _⟩
    | included l s bytes hk hl hread hhash hd =>
      refine ⟨fun hlt => absurd hlt (Nat.not_lt.2 hk), ?_⟩
      exact le_slotBytes hof hd (hload l _ s bytes hl hread)

end Request

/-- What the window is: the images sent are within it, the newest among them when it fits alone; the start never moves
back, and where the byte budget does not bind it moves at most once a step. -/
structure WindowLaws (window : ImageWindow) : Prop where
  fits : ∀ sizes, SuffixFits sizes window (windowStart sizes window)
  newest : ∀ (sizes : List Nat) (size : Nat), 1 ≤ window.maxImages → size ≤ window.maxBytes → windowStart (sizes ++ [size]) window ≤ sizes.length
  forward : ∀ sizes more : List Nat, windowStart sizes window ≤ windowStart (sizes ++ more) window
  apart : ∀ sizes more : List Nat, (∀ k ≤ more.length, BytesFree (sizes ++ more.take k) window) → ∀ i j, i < j → j < more.length →
    windowStart (sizes ++ more.take i) window ≠ windowStart (sizes ++ more.take (i + 1)) window →
    windowStart (sizes ++ more.take j) window ≠ windowStart (sizes ++ more.take (j + 1)) window → windowStep window ≤ j - i

/-- The image window is bounded, stable and honest. -/
theorem image_window_honest {S : Type} (sha256Hex : List UInt8 → Str) {load : Option (ImageLoader S)}
    (hload : ∀ l sha s b, load = some l → (l sha s).1 = .bytes b → b.length ≤ MAX_IMAGE_BYTES) (window : ImageWindow)
    (context : Context) (heap : Heap) (store : S) :
    WindowLaws window ∧
      ResolvedAs sha256Hex load window context heap (imageSlots heap 0 (context.messages.getD []))
        (resolveImagesReported sha256Hex load window context heap store) ∧
      ((resolveImagesReported sha256Hex load window context heap store).items.map sentBytes).sum ≤ window.maxBytes := by
  refine ⟨⟨?_, ?_, ?_, ?_⟩, resolveImagesReported_spec .., resolveImagesReported_bytes hload⟩
  · exact fun sizes => start_fits sizes window
  · exact fun sizes size hcount hsize => start_newest hcount hsize
  · exact fun sizes more => start_append sizes more window
  · exact fun sizes more hfree i j hij hj hi hj' => start_apart hfree hij hj hi hj'

/-- An image block by reference, its size declared. -/
def aReference (sha : Char) : Json :=
  .obj [(js "type", .str (js "image")), (js "mimeType", .str (js "image/png")),
    (js "data", .str (IMAGE_REF_PREFIX ++ List.replicate 64 (unit sha) ++ js ":3"))]

/-- Two messages, the older of which holds the image the newer one ends with. -/
def aContext : Context :=
  ⟨[], some [.holds [(js "role", .str (js "user"))] 0, .holds [(js "role", .str (js "user"))] 1]⟩

def aHeap : Heap := [[aReference 'a', textBlock (js "look")], [aReference 'b', aReference 'a']]

/-- A store that has three bytes under every hash. -/
def aLoader : ImageLoader Unit := fun _ s => (.bytes [1, 2, 3], s)

theorem image_window_honest_three :
    ((resolveImagesReported (fun _ => List.replicate 64 (unit 'a')) (some aLoader) ⟨2, 100⟩ aContext aHeap ()).items.map
        sentBytes).sum = 3 ∧
      ((resolveImagesReported (fun _ => List.replicate 64 (unit 'a')) (some aLoader) ⟨2, 100⟩ aContext aHeap ()).items.map
        sentBytes).sum ≤ 100 := by
  refine ⟨by decide +kernel, (@image_window_honest _ _ (some aLoader) ?_ ⟨2, 100⟩ aContext aHeap ()).2.2⟩
  intro l sha s b hl hread
  cases hl
  cases hread
  decide

end Antiproton.Images
