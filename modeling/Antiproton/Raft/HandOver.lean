import Antiproton.Core.Js

/-!
# Antiproton.Raft.HandOver

What one `receive_events` shows the model of the batch Raft returned, and the cursor its next call acknowledges
(`handOver`, `src/plugins/raft.ts`). The projection of a message onto one line is the SDK's, and the wording of the notes
is the mount's: both are parameters.

* `handOver_handedOver`: in cursor mode the shown messages are a lowest-seq prefix of the queued ones, as long as the
  parking line lets it be, and the cursor is below everything left.
-/

namespace Antiproton.Raft

open Js

/-- The length past which the runtime parks a result. -/
def PARK_BYTES : Nat := 4 * 1024

structure RaftAttachment where
  id : Str
  filename : Str
deriving DecidableEq

structure RaftMessage where
  /-- The message's global seq; a third-party event has none. -/
  seq : Option Int
  target : Str
  text : Str
  attachments : List RaftAttachment
  truncated : Bool
deriving DecidableEq

structure RaftInboxBatch where
  messages : List RaftMessage
  hasMore : Bool
  replyTarget : Option Str
  /-- `ackMode` is `immediate`; else `cursor`. -/
  onRead : Bool
deriving DecidableEq

inductive InboxStatus where
  | messages
  | no_new_messages
  | still_arriving
deriving DecidableEq

def InboxStatus.word : InboxStatus → String
  | .messages => "messages"
  | .no_new_messages => "no_new_messages"
  | .still_arriving => "still_arriving"

def DOWNLOAD_TOOL : Str := js "attachments_download_url"

def MORE_NOTE : Str :=
  js ("More unread messages remain. Read what is addressed to you (DMs, @mentions, your threads) and stop: " ++
    "inbox_list counts the rest per conversation; do not page through channel backlog.")

def ARRIVING_NOTE : Str :=
  js "Raft announced messages it has not made readable yet; call receive_events again in a few seconds."

def INBOX_NOTE : Str :=
  js ("More unread messages remain; inbox lists them per conversation. Read each DM, thread and @mention there with " ++
    "its read call and answer it. The rest is background: at most its latest page (messages_read with only target), never paging back.")

/-! ## One line of a message -/

/-- What `replace` writes for its replacement text: `$$`, `$&`, and the text before and after the match. -/
def substitution (matched before after : Str) : Str → Str
  | [] => []
  | [u] => [u]
  | u :: v :: rest =>
    if u = unit '$' then
      if v = unit '$' then unit '$' :: substitution matched before after rest
      else if v = unit '&' then matched ++ substitution matched before after rest
      else if v = 0x60 then before ++ substitution matched before after rest
      else if v = 0x27 then after ++ substitution matched before after rest
      else u :: substitution matched before after (v :: rest)
    else u :: substitution matched before after (v :: rest)

/-- `line.replace(found, by)`, the first occurrence. -/
def replaceFirst (found by_ line : Str) : Str :=
  match (occurrences found line).head? with
  | none => line
  | some at_ => line.take at_ ++ substitution found (line.take at_) (line.drop (at_ + found.length)) by_ ++
      line.drop (at_ + found.length)

section Wording

variable (withNamesOnOneLine : RaftMessage → RaftMessage) (offeredTerms : Str → List Str → Str)

def modelLine (message : RaftMessage) (unoffered : List Str) : Str :=
  let m := withNamesOnOneLine message
  let n := m.attachments.length
  let line :=
    if m.attachments ≠ [] ∧ DOWNLOAD_TOOL ∈ unoffered then
      let call := DOWNLOAD_TOOL ++ js "(\x7b attachmentId: " ++
        (match m.attachments with
          | [a] => quote a.id
          | _ => js "…") ++ js " \x7d)"
      let plural := if 1 < n then "s" else ""
      let head := js s!" [{n} attachment{plural}: "
      let cli := head ++ join (js ", ") (m.attachments.map fun a => a.filename ++ js " (id:" ++ a.id ++ js ")") ++
        js " — use " ++ call ++ js " to download]"
      let ours := head ++ join (js ", ") (m.attachments.map (·.filename)) ++ js " — this mount has no tool to open attachments]"
      if includes cli m.text then replaceFirst cli ours m.text else m.text ++ ours
    else m.text
  if m.truncated then
    line ++ js " [content left out by Raft: too large for one pull; this mount has no tool to read it in full]"
  else line

/-! ## The result -/

def seqOf (m : RaftMessage) : Int := m.seq.getD 0

/-- The messages with a seq, in ascending order of it. -/
def RaftInboxBatch.queued (batch : RaftInboxBatch) : List RaftMessage :=
  Table.orderBy seqOf (batch.messages.filter (·.seq.isSome))

/-- The messages without one: acknowledged as Raft handed them out. -/
def RaftInboxBatch.handedOff (batch : RaftInboxBatch) : List RaftMessage := batch.messages.filter (·.seq.isNone)

def RaftInboxBatch.shownAt (batch : RaftInboxBatch) (k : Nat) : List RaftMessage := batch.queued.take k ++ batch.handedOff

def moreLeft (left : Nat) : Str :=
  let were := if left = 1 then " was" else "s were"
  js s!"{left} more message{were} left unacknowledged so this result is not cut; they come first on your next call."

def TOO_LONG : Str :=
  js ("Too long to show whole; read the stored copy as the note beside this preview says. Not counted as seen, so a send " ++
    "there first shows what is new.")

/-- One field of a result, where it is there. -/
def fieldWhen (present : Bool) (name : String) (value : Json) : List (Str × Json) := if present then [(js name, value)] else []

variable (batch : RaftInboxBatch) (unoffered : List Str) (inbox : Option (List Str)) (arriving : Bool)

def RaftInboxBatch.hasMoreAt (k : Nat) : Bool := batch.hasMore || decide (0 < batch.queued.length - k)

def notesOf (k : Nat) (attested : Bool) : List Str :=
  let left := batch.queued.length - k
  (if attested then [] else [TOO_LONG]) ++ (if attested ∧ 0 < left then [moreLeft left] else []) ++
    (if batch.hasMoreAt k then [if inbox.isSome then INBOX_NOTE else MORE_NOTE] else []) ++
    (if arriving then [ARRIVING_NOTE] else [])

def statusOf (k : Nat) : InboxStatus :=
  if arriving then .still_arriving else if batch.shownAt k ≠ [] then .messages else .no_new_messages

def resultOf (k : Nat) (attested : Bool) : Json :=
  let notes := notesOf batch inbox arriving k attested
  let hasMore := batch.hasMoreAt k
  .obj ([(js "messages", .arr ((batch.shownAt k).map fun m => .str (modelLine withNamesOnOneLine m unoffered))),
      (js "hasMore", .bool hasMore)] ++
    fieldWhen (inbox.isSome && hasMore) "inbox" (.arr ((inbox.getD []).map .str)) ++
    fieldWhen (!notes.isEmpty) "note" (.str (offeredTerms (join (js " ") notes) unoffered)) ++
    fieldWhen ((batch.replyTarget.any fun t => !t.isEmpty) && batch.queued.length - k == 0) "replyTarget"
      (.str (batch.replyTarget.getD [])) ++
    fieldWhen batch.onRead "acknowledged" (.ofString "on this read") ++
    fieldWhen (attested || statusOf batch arriving k != .messages) "status" (.ofString (statusOf batch arriving k).word))

def fits (r : Json) : Bool := decide (r.stringify.length ≤ PARK_BYTES)

def RaftInboxBatch.cursorAt (k : Nat) : Option Int :=
  if k = batch.queued.length then batch.queued.getLast?.map seqOf else (batch.queued[k]?).map fun m => seqOf m - 1

structure HandOver where
  result : Json
  shown : List RaftMessage
  cursor : Option Int
  attested : Bool

def pick (k : Nat) (attested : Bool) : HandOver :=
  ⟨resultOf withNamesOnOneLine offeredTerms batch unoffered inbox arriving k attested, batch.shownAt k, batch.cursorAt k, attested⟩

/-- The loop from `k` down to `lowest`. -/
def largestFitting (fit : Nat → Bool) (lowest : Nat) : Nat → Option Nat
  | 0 => if lowest = 0 ∧ fit 0 then some 0 else none
  | k + 1 => if k + 1 < lowest then none else if fit (k + 1) then some (k + 1) else largestFitting fit lowest k

/-- The shortest prefix that is a cut: showing no queued message is one only when something else is shown. -/
def RaftInboxBatch.lowest : Nat := if batch.handedOff ≠ [] then 0 else 1

def handOver : HandOver :=
  let attestedAt := fun k => resultOf withNamesOnOneLine offeredTerms batch unoffered inbox arriving k true
  let pick := pick withNamesOnOneLine offeredTerms batch unoffered inbox arriving
  let n := batch.queued.length
  if batch.onRead ∨ n = 0 then pick n (fits (attestedAt n))
  else
    match largestFitting (fun k => fits (attestedAt k)) batch.lowest n with
    | some k => pick k true
    | none => pick batch.lowest false

/-- What one call shows and acknowledges, in cursor mode. -/
structure HandedOver (g : HandOver) (k : Nat) : Prop where
  shown : k ≤ batch.queued.length ∧ g.shown = batch.queued.take k ++ batch.handedOff
  lowest : ∀ m ∈ batch.queued.take k, ∀ m' ∈ batch.queued.drop k, seqOf m ≤ seqOf m'
  result : g.result = resultOf withNamesOnOneLine offeredTerms batch unoffered inbox arriving k g.attested
  cursor : g.cursor = batch.cursorAt k
  below : ∀ c, g.cursor = some c → ∀ m ∈ batch.queued.drop k, c < seqOf m
  largest : k = batch.queued.length → g.cursor = batch.queued.getLast?.map seqOf ∧
    ∀ c, g.cursor = some c → ∀ m ∈ batch.queued, seqOf m ≤ c
  fits : g.attested = true → g.result.stringify.length ≤ PARK_BYTES
  unattested : g.attested = false → ∀ k', batch.lowest ≤ k' ∨ batch.queued = [] → k' ≤ batch.queued.length →
    PARK_BYTES < (resultOf withNamesOnOneLine offeredTerms batch unoffered inbox arriving k' true).stringify.length
  most : g.attested = true → ∀ k', k < k' → k' ≤ batch.queued.length →
    PARK_BYTES < (resultOf withNamesOnOneLine offeredTerms batch unoffered inbox arriving k' true).stringify.length
  hasMore : g.result.field? (js "hasMore") = some (.bool false) → batch.hasMore = false ∧ k = batch.queued.length
  moves : batch.handedOff = [] → batch.queued ≠ [] → 0 < k

end Wording

/-! ## The choice -/

section Choice

variable {fit : Nat → Bool} {lowest n k : Nat}

theorem largestFitting_some (h : largestFitting fit lowest n = some k) :
    lowest ≤ k ∧ k ≤ n ∧ fit k = true ∧ ∀ k', k < k' → k' ≤ n → fit k' = false := by
  induction n with
  | zero =>
    unfold largestFitting at h
    split at h
    · rename_i hfit
      cases h
      exact ⟨by omega, le_refl 0, hfit.2, fun k' hk hk' => by omega⟩
    · cases h
  | succ n ih =>
    unfold largestFitting at h
    split at h
    · cases h
    · rename_i hlow
      split at h
      · rename_i hfit
        cases h
        exact ⟨by omega, le_refl _, hfit, fun k' hk hk' => by omega⟩
      · rename_i hfit
        obtain ⟨hlk, hkn, hk, hmost⟩ := ih h
        refine ⟨hlk, by omega, hk, fun k' hk' hn => ?_⟩
        rcases Nat.eq_or_lt_of_le hn with rfl | hn
        · exact Bool.eq_false_iff.2 hfit
        · exact hmost k' hk' (by omega)

theorem largestFitting_none (h : largestFitting fit lowest n = none) : ∀ k', lowest ≤ k' → k' ≤ n → fit k' = false := by
  induction n with
  | zero =>
    intro k' hl hn
    obtain rfl : k' = 0 := by omega
    unfold largestFitting at h
    split at h
    · cases h
    · rename_i hfit
      exact Bool.eq_false_iff.2 fun hf => hfit ⟨by omega, hf⟩
  | succ n ih =>
    intro k' hl hn
    unfold largestFitting at h
    split at h
    · omega
    · split at h
      · cases h
      · rename_i hfit
        rcases Nat.eq_or_lt_of_le hn with rfl | hn
        · exact Bool.eq_false_iff.2 hfit
        · exact ih h k' hl (by omega)

end Choice

section Queue

variable {batch : RaftInboxBatch} {k : Nat}

theorem queued_ascending (batch : RaftInboxBatch) : batch.queued.Pairwise fun m m' => seqOf m ≤ seqOf m' :=
  Table.pairwise_orderBy seqOf _

theorem queued_lowest (k : Nat) {m m' : RaftMessage} (hm : m ∈ batch.queued.take k) (hm' : m' ∈ batch.queued.drop k) :
    seqOf m ≤ seqOf m' := by
  have h := queued_ascending batch
  rw [← List.take_append_drop k batch.queued, List.pairwise_append] at h
  exact h.2.2 m hm m' hm'

/-- The cursor is below the seq of every queued message not shown. -/
theorem cursorAt_below {c : Int} (h : batch.cursorAt k = some c) {m : RaftMessage} (hm : m ∈ batch.queued.drop k) :
    c < seqOf m := by
  unfold RaftInboxBatch.cursorAt at h
  split at h
  · rename_i hk
    rw [hk, List.drop_length] at hm
    exact (List.not_mem_nil hm).elim
  · obtain ⟨first, hfirst, rfl⟩ := Option.map_eq_some_iff.1 h
    obtain ⟨hlt, hget⟩ := List.getElem?_eq_some_iff.1 hfirst
    have hasc := (queued_ascending batch).drop (i := k)
    rw [List.drop_eq_getElem_cons hlt, hget] at hm hasc
    rcases List.mem_cons.1 hm with rfl | hm
    · omega
    · have := (List.pairwise_cons.1 hasc).1 m hm
      omega

/-- With every queued message shown, the cursor is the largest seq. -/
theorem cursorAt_all {c : Int} (h : batch.cursorAt batch.queued.length = some c) {m : RaftMessage} (hm : m ∈ batch.queued) :
    seqOf m ≤ c := by
  unfold RaftInboxBatch.cursorAt at h
  rw [if_pos rfl] at h
  obtain ⟨last, hlast, rfl⟩ := Option.map_eq_some_iff.1 h
  have hne : batch.queued ≠ [] := List.ne_nil_of_mem hm
  have hasc := queued_ascending batch
  rw [List.getLast?_eq_getLast_of_ne_nil hne] at hlast
  rw [← List.dropLast_append_getLast hne, Option.some.inj hlast] at hm hasc
  rcases List.mem_append.1 hm with hm | hm
  · exact (List.pairwise_append.1 hasc).2.2 m hm _ (List.mem_singleton.2 rfl)
  · rw [List.mem_singleton.1 hm]

end Queue

/-! ## The result of a call -/

section Result

variable (withNamesOnOneLine : RaftMessage → RaftMessage) (offeredTerms : Str → List Str → Str) (batch : RaftInboxBatch)
  (unoffered : List Str) (inbox : Option (List Str)) (arriving : Bool)

theorem resultOf_hasMore (k : Nat) (attested : Bool) :
    (resultOf withNamesOnOneLine offeredTerms batch unoffered inbox arriving k attested).field? (js "hasMore") =
      some (.bool (batch.hasMoreAt k)) := by
  have hne : (js "messages" == js "hasMore") = false := by decide
  unfold resultOf
  dsimp only [Json.field?, List.cons_append]
  rw [List.find?_cons_of_neg (by simp [hne]), List.find?_cons_of_pos (by simp)]
  rfl

theorem hasMoreAt_false {k : Nat} (hk : k ≤ batch.queued.length) (h : batch.hasMoreAt k = false) :
    batch.hasMore = false ∧ k = batch.queued.length := by
  unfold RaftInboxBatch.hasMoreAt at h
  simp only [Bool.or_eq_false_iff, decide_eq_false_iff_not, not_lt, Nat.le_zero_eq] at h
  exact ⟨h.1, by omega⟩

theorem fits_iff {r : Json} : fits r = true ↔ r.stringify.length ≤ PARK_BYTES := decide_eq_true_iff

theorem fits_false {r : Json} (h : fits r = false) : PARK_BYTES < r.stringify.length :=
  not_le.1 (of_decide_eq_false h)

/-- A call's result at any cut, given what the cut answers for. -/
theorem pick_handedOver {k : Nat} {attested : Bool} (hk : k ≤ batch.queued.length)
    (hfits : attested = true → fits (resultOf withNamesOnOneLine offeredTerms batch unoffered inbox arriving k true) = true)
    (hun : attested = false → ∀ k', batch.lowest ≤ k' ∨ batch.queued = [] → k' ≤ batch.queued.length →
      fits (resultOf withNamesOnOneLine offeredTerms batch unoffered inbox arriving k' true) = false)
    (hmost : attested = true → ∀ k', k < k' → k' ≤ batch.queued.length →
      fits (resultOf withNamesOnOneLine offeredTerms batch unoffered inbox arriving k' true) = false)
    (hmoves : batch.handedOff = [] → batch.queued ≠ [] → 0 < k) :
    HandedOver withNamesOnOneLine offeredTerms batch unoffered inbox arriving
      (pick withNamesOnOneLine offeredTerms batch unoffered inbox arriving k attested) k where
  shown := ⟨hk, rfl⟩
  lowest m hm m' hm' := queued_lowest k hm hm'
  result := rfl
  cursor := rfl
  below c hc m hm := cursorAt_below hc hm
  largest hall := by
    subst hall
    exact ⟨if_pos rfl, fun c hc m hm => cursorAt_all hc hm⟩
  fits hatt := by
    have hatt' : attested = true := hatt
    subst hatt'
    exact fits_iff.1 (hfits rfl)
  unattested hatt k' hl hk' := fits_false (hun hatt k' hl hk')
  most hatt k' hl hk' := fits_false (hmost hatt k' hl hk')
  hasMore h := by
    have hfield : some (Json.bool (batch.hasMoreAt k)) = some (.bool false) :=
      (resultOf_hasMore withNamesOnOneLine offeredTerms batch unoffered inbox arriving k attested).symm.trans h
    exact hasMoreAt_false batch hk (Json.bool.inj (Option.some.inj hfield))
  moves := hmoves

theorem lowest_le (hq : batch.queued ≠ []) : batch.lowest ≤ batch.queued.length := by
  have := List.length_pos_iff.2 hq
  unfold RaftInboxBatch.lowest
  split <;> omega

/-- In cursor mode a call shows a lowest-seq prefix of the queued messages, the longest that fits. -/
theorem handOver_handedOver (hmode : batch.onRead = false) :
    ∃ k, HandedOver withNamesOnOneLine offeredTerms batch unoffered inbox arriving
      (handOver withNamesOnOneLine offeredTerms batch unoffered inbox arriving) k := by
  unfold handOver
  dsimp only
  have hpos (h : batch.handedOff = []) : batch.lowest = 1 := if_neg (not_not_intro h)
  by_cases hq : batch.queued = []
  · have hlen : batch.queued.length = 0 := by rw [hq]; rfl
    rw [if_pos (.inr hlen)]
    refine ⟨batch.queued.length, pick_handedOver _ _ _ _ _ _ (le_refl _) (fun h => h) ?_ (fun _ k' hk hk' => by omega)
      fun _ h => absurd hq h⟩
    intro hfit k' _ hk'
    obtain rfl : k' = batch.queued.length := by omega
    exact hfit
  · have hne : ¬(batch.onRead = true ∨ batch.queued.length = 0) := by
      rw [hmode]
      rintro (h | h)
      · cases h
      · exact hq (List.length_eq_zero_iff.1 h)
    rw [if_neg hne]
    split
    · rename_i k hk
      obtain ⟨hlow, hkn, hfit, hmost⟩ := largestFitting_some hk
      exact ⟨k, pick_handedOver _ _ _ _ _ _ hkn (fun _ => hfit) (fun h => by cases h) (fun _ => hmost)
        fun hoff _ => by rw [hpos hoff] at hlow; exact hlow⟩
    · rename_i hnone
      refine ⟨batch.lowest, pick_handedOver _ _ _ _ _ _ (lowest_le batch hq) (fun h => by cases h) (fun _ k' hl hk' => ?_)
        (fun h => by cases h) fun hoff _ => by rw [hpos hoff]; exact Nat.one_pos⟩
      rcases hl with hl | hl
      · exact largestFitting_none hnone k' hl hk'
      · exact absurd hl hq

end Result

end Antiproton.Raft
