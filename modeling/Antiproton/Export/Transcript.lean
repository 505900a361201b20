import Antiproton.Core.JsonParse

/-!
# Antiproton.Export.Transcript

One page of a main conversation (`evalTranscript`, `cf/src/eval-read.ts`): the reader's list from an offset on, each event
redacted and counted toward the bytes of the page. The walk that follows the pages reads the conversation anew each time,
and the list may have grown at its end.

* `evalTranscript_spec`: a page is the next events of the list, at least one when any is left.
* `followTranscript_pieces`: the pages of a walk that ends are the list, in order, each event once.
-/

namespace Antiproton.Export

open Js

/-- A row of `main_sessions`. -/
structure MainSession where
  generation : Nat
  sessionId : Str
  archivedAs : Option Str
  ended : Bool
deriving DecidableEq

/-- What the object holds of its agent's conversations: each session's events are in sequence order, failed runs among
them, and the approvals are by their operation. -/
structure Conversations where
  owner : Option (Str × Str)
  mains : List MainSession
  subagents : List Str
  tasks : List (Str × Str × Str)
  entries : Str → List Json
  byOp : Json

def MAIN_SESSION : Str := js "main"

/-- `MAIN_SESSION_ID`. -/
def isMainSessionId (id : Str) : Bool :=
  id == js "main" || (startsWith (js "main.") id &&
    match id.drop 5 with
    | [] => false
    | u :: rest => isDigit u && u != unit '0' && rest.all isDigit)

/-- The main conversation that has not ended, the newest first. -/
def currentMainId (c : Conversations) : Str :=
  match (Table.orderBy (·.generation) (c.mains.filter fun r => !r.ended)).getLast? with
  | some r => r.sessionId
  | none => MAIN_SESSION

def mainSessions (c : Conversations) : List Str :=
  if c.mains = [] then [MAIN_SESSION] else (Table.orderBy (·.generation) c.mains).map (·.sessionId)

/-- The session whose tables hold a main conversation. -/
def physicalSession (c : Conversations) (id : Str) : Option Str :=
  if id = currentMainId c then some MAIN_SESSION
  else (c.mains.find? fun r => r.sessionId == id && r.archivedAs.isSome).bind (·.archivedAs)

def sessionFor (c : Conversations) (tenantId agentId taskId : Str) : Option Str :=
  if c.owner ≠ some (tenantId, agentId) then none
  else if taskId = js "t_" ++ agentId then some MAIN_SESSION
  else
    let main := physicalSession c taskId
    if main.isSome ∧ ¬(main = some MAIN_SESSION ∧ taskId = MAIN_SESSION) then main
    else if startsWith (js "sub_") taskId ∧ taskId ∈ c.subagents then some taskId
    else if ((c.tasks.find? fun t => t.1 == tenantId && t.2.1 == taskId).map (·.2.2)) = some agentId then some taskId
    else none

structure TranscriptEvents where
  total : Nat
  events : List Json
  byOp : Json

/-- The reader: `mask` is what is shown of one event. -/
def readTranscript (c : Conversations) (mask : Json → Json) (tenantId agentId taskId : Str) (offset limit : Nat) :
    Option TranscriptEvents :=
  (sessionFor c tenantId agentId taskId).map fun session =>
    ⟨(c.entries session).length, (((c.entries session).drop offset).take limit).map mask, c.byOp⟩

structure EvalTranscript where
  sessionId : Str
  current : Bool
  total : Nat
  shown : Nat
  cursor : Nat
  nextCursor : Option Nat
  events : List Json
  byOp : Json
  redactions : Nat

/-- The bytes of a value, serialized. -/
def bytesOf (v : Json) : Nat := (utf8 v.stringify).length

/-- The events of a page, each redacted, up to the bytes it may take. -/
def fillPage (redact : Json → Json × Nat) (maxBytes : Nat) : List Json → List Json → Nat → Nat → List Json × Nat
  | [], events, redactions, _ => (events, redactions)
  | e :: rest, events, redactions, bytes =>
    let r := redact e
    let n := bytesOf r.1
    if events ≠ [] ∧ maxBytes < bytes + n then (events, redactions)
    else fillPage redact maxBytes rest (events ++ [r.1]) (redactions + r.2) (bytes + n)

/-- What a page of the transcript asks; the route refuses a limit of none. -/
structure TranscriptQuery where
  tenantId : Str
  agentId : Str
  session : Option Str
  limit : Nat
  limit_pos : 0 < limit
  maxBytes : Nat

/-- The reader's name of a main conversation: the current one is the agent's own. -/
def readerId (c : Conversations) (q : TranscriptQuery) : Str :=
  let sessionId := q.session.getD (currentMainId c)
  if sessionId = currentMainId c then js "t_" ++ q.agentId else sessionId

def evalTranscript (c : Conversations) (mask : Json → Json) (redact : Json → Json × Nat) (q : TranscriptQuery)
    (offset : Nat) : Option EvalTranscript :=
  let sessionId := q.session.getD (currentMainId c)
  if isMainSessionId sessionId ∧ sessionId ∈ mainSessions c then
    (readTranscript c mask q.tenantId q.agentId (readerId c q) offset q.limit).map fun all =>
      let byOp := redact all.byOp
      let page := fillPage redact q.maxBytes all.events [] byOp.2 (bytesOf byOp.1)
      let stop := offset + page.1.length
      { sessionId, current := decide (sessionId = currentMainId c), total := all.total, shown := page.1.length,
        cursor := offset, nextCursor := if stop < all.total then some stop else none, events := page.1, byOp := byOp.1,
        redactions := page.2 }
  else none

/-! ## What a page gives -/

/-- The list a page is read from: the events of the conversation asked for. -/
def conversation (c : Conversations) (q : TranscriptQuery) : Option (List Json) :=
  let sessionId := q.session.getD (currentMainId c)
  if isMainSessionId sessionId ∧ sessionId ∈ mainSessions c then
    (sessionFor c q.tenantId q.agentId (readerId c q)).map c.entries
  else none

section Page

variable {redact : Json → Json × Nat} {maxBytes : Nat}

theorem fillPage_spec (l events : List Json) (redactions bytes : Nat) :
    ∃ k ≤ l.length, (fillPage redact maxBytes l events redactions bytes).1 = events ++ (l.take k).map (fun e => (redact e).1) ∧
      (events = [] → l ≠ [] → 0 < k) := by
  induction l generalizing events redactions bytes with
  | nil => exact ⟨0, Nat.le_refl _, (List.append_nil _).symm, fun _ h => absurd rfl h⟩
  | cons e rest ih =>
    unfold fillPage
    dsimp only
    split
    · next hstop => exact ⟨0, Nat.zero_le _, (List.append_nil _).symm, fun h => absurd h hstop.1⟩
    · obtain ⟨k, hk, hrest, -⟩ := ih (events ++ [(redact e).1]) (redactions + (redact e).2) (bytes + bytesOf (redact e).1)
      refine ⟨k + 1, Nat.succ_le_succ hk, ?_, fun _ _ => Nat.succ_pos k⟩
      rw [hrest, List.take_succ_cons, List.map_cons, List.append_assoc, List.singleton_append]

variable {c : Conversations} {mask : Json → Json} {q : TranscriptQuery} {offset : Nat}

/-- What a page is of the list it was read from. -/
structure PageOfList (l : List Json) (shown : Json → Json) (offset : Nat) (p : EvalTranscript) : Prop where
  events : p.events = ((l.drop offset).take p.shown).map shown
  within : p.shown ≤ (l.drop offset).length
  some_left : offset < l.length → 0 < p.shown
  next : p.nextCursor = if offset + p.shown < l.length then some (offset + p.shown) else none

/-- A page is the next events of the list, at least one when any is left. -/
theorem evalTranscript_spec (c : Conversations) (mask : Json → Json) (redact : Json → Json × Nat) (q : TranscriptQuery)
    (offset : Nat) : (conversation c q = none ∧ evalTranscript c mask redact q offset = none) ∨
      ∃ l p, conversation c q = some l ∧ evalTranscript c mask redact q offset = some p ∧
        PageOfList l (fun e => (redact (mask e)).1) offset p := by
  unfold conversation evalTranscript readTranscript
  dsimp only
  split
  case isFalse => exact .inl ⟨rfl, rfl⟩
  cases sessionFor c q.tenantId q.agentId (readerId c q) with
  | none => exact .inl ⟨rfl, rfl⟩
  | some session =>
    refine .inr ⟨c.entries session, _, rfl, rfl, ?_⟩
    obtain ⟨k, hk, hpage, hsome⟩ := @fillPage_spec redact q.maxBytes
      ((((c.entries session).drop offset).take q.limit).map mask) [] (redact c.byOp).2 (bytesOf (redact c.byOp).1)
    rw [List.nil_append] at hpage
    have hlen : k ≤ min q.limit ((c.entries session).drop offset).length := by
      rw [List.length_map, List.length_take] at hk
      exact hk
    have htake : ((((c.entries session).drop offset).take q.limit).map mask).take k =
        (((c.entries session).drop offset).take k).map mask := by
      rw [← List.map_take, List.take_take, Nat.min_eq_left (Nat.le_trans hlen (Nat.min_le_left _ _))]
    have hshown : (((((c.entries session).drop offset).take q.limit).map mask).take k).length = k :=
      List.length_take_of_le hk
    refine ⟨?_, ?_, ?_, rfl⟩
    · dsimp only
      rw [hpage, List.length_map, hshown, htake, List.map_map]
      rfl
    · dsimp only
      rw [hpage, List.length_map, hshown]
      exact Nat.le_trans hlen (Nat.min_le_right _ _)
    · intro hleft
      dsimp only
      rw [hpage, List.length_map, hshown]
      refine hsome rfl fun hnil => ?_
      have hzero := congrArg List.length hnil
      rw [List.length_map, List.length_take, List.length_drop, List.length_nil] at hzero
      have hpos := q.limit_pos
      omega

end Page

/-! ## A walk -/

/-- One request: what the object holds by then, and what is shown of an event. -/
structure Reading where
  found : Conversations
  mask : Json → Json
  redact : Json → Json × Nat

def Reading.shown (r : Reading) (e : Json) : Json := (r.redact (r.mask e)).1

structure TranscriptVisit where
  reading : Reading
  offset : Nat
  page : EvalTranscript

/-- The pages from an offset on, each asked for with the cursor of the one before, and whether the last had none. -/
def followTranscript (q : TranscriptQuery) : List Reading → Nat → List TranscriptVisit × Bool
  | [], _ => ([], false)
  | r :: reads, offset =>
    match evalTranscript r.found r.mask r.redact q offset with
    | none => ([], false)
    | some p =>
      match p.nextCursor with
      | none => ([⟨r, offset, p⟩], true)
      | some c =>
        let rest := followTranscript q reads c
        (⟨r, offset, p⟩ :: rest.1, rest.2)

/-- The conversation only grows, at its end. -/
def OnlyGrows (q : TranscriptQuery) (reads : List Reading) : Prop :=
  reads.Pairwise fun r r' => ∀ l l', conversation r.found q = some l → conversation r'.found q = some l' → l <+: l'

def TranscriptVisit.list (q : TranscriptQuery) (v : TranscriptVisit) : List Json := (conversation v.reading.found q).getD []

/-- The events of the list that the page shows. -/
def TranscriptVisit.piece (q : TranscriptQuery) (v : TranscriptVisit) : List Json :=
  ((v.list q).drop v.offset).take v.page.shown

/-- The pages of a walk give each event once, in order. -/
structure TranscriptOnce (q : TranscriptQuery) (offset : Nat) (visits : List TranscriptVisit) (ended : Bool) : Prop where
  page : ∀ v ∈ visits, v.page.events = (v.piece q).map v.reading.shown
  some_left : ∀ v ∈ visits, v.offset < (v.list q).length → v.page.events ≠ []
  onward : ∀ v ∈ visits, ∀ c, v.page.nextCursor = some c → v.offset < c
  whole : ended = true → ∃ last, visits.getLast? = some last ∧ visits.flatMap (·.piece q) = (last.list q).drop offset

section Walk

variable {q : TranscriptQuery}

theorem drop_grown {l l' : List Json} (h : l <+: l') {offset n : Nat} (hn : offset + n ≤ l.length) :
    l'.drop offset = (l.drop offset).take n ++ l'.drop (offset + n) := by
  obtain ⟨more, rfl⟩ := h
  have hdrop : (l ++ more).drop offset = l.drop offset ++ more := List.drop_append_of_le_length (by omega)
  have hlen : n ≤ (l.drop offset).length := by
    rw [List.length_drop]
    omega
  rw [← List.drop_drop, hdrop, List.drop_append_of_le_length hlen, ← List.append_assoc, List.take_append_drop]

theorem followTranscript_reads (reads : List Reading) (offset : Nat) :
    ∀ v ∈ (followTranscript q reads offset).1, v.reading ∈ reads ∧ conversation v.reading.found q = some (v.list q) := by
  induction reads generalizing offset with
  | nil => exact fun v hv => absurd hv List.not_mem_nil
  | cons r reads ih =>
    unfold followTranscript
    rcases evalTranscript_spec r.found r.mask r.redact q offset with ⟨-, hnone⟩ | ⟨l, p, hl, hp, -⟩
    · rw [hnone]
      exact fun v hv => absurd hv List.not_mem_nil
    · have hhere : conversation r.found q = some ((⟨r, offset, p⟩ : TranscriptVisit).list q) := by
        unfold TranscriptVisit.list
        rw [hl]
        rfl
      rw [hp]
      dsimp only
      cases p.nextCursor with
      | none =>
        intro v hv
        rw [List.mem_singleton.1 hv]
        exact ⟨List.mem_cons_self, hhere⟩
      | some c =>
        intro v hv
        rcases List.mem_cons.1 hv with rfl | hv
        · exact ⟨List.mem_cons_self, hhere⟩
        · exact ⟨List.mem_cons_of_mem _ (ih c v hv).1, (ih c v hv).2⟩

/-- The pages of a walk that ends are the list it ended with, in order, each event once. -/
theorem followTranscript_pieces {reads : List Reading} (hgrow : OnlyGrows q reads) (offset : Nat) :
    TranscriptOnce q offset (followTranscript q reads offset).1 (followTranscript q reads offset).2 := by
  induction reads generalizing offset with
  | nil =>
    exact ⟨fun v hv => absurd hv List.not_mem_nil, fun v hv => absurd hv List.not_mem_nil,
      fun v hv => absurd hv List.not_mem_nil, fun h => absurd h Bool.false_ne_true⟩
  | cons r reads ih =>
    obtain ⟨hnext, hgrow⟩ := List.pairwise_cons.1 hgrow
    unfold followTranscript
    rcases evalTranscript_spec r.found r.mask r.redact q offset with ⟨-, hnone⟩ | ⟨l, p, hl, hp, hpage⟩
    · rw [hnone]
      exact ⟨fun v hv => absurd hv List.not_mem_nil, fun v hv => absurd hv List.not_mem_nil,
        fun v hv => absurd hv List.not_mem_nil, fun h => absurd h Bool.false_ne_true⟩
    · let here : TranscriptVisit := ⟨r, offset, p⟩
      have hlist : here.list q = l := by
        unfold TranscriptVisit.list
        rw [hl]
        rfl
      have hpiece : here.piece q = (l.drop offset).take p.shown := by
        unfold TranscriptVisit.piece
        rw [hlist]
      have hevents : here.page.events = (here.piece q).map here.reading.shown := by
        rw [hpiece]
        exact hpage.events
      have hsome : here.offset < (here.list q).length → here.page.events ≠ [] := by
        intro hleft hnil
        rw [hlist] at hleft
        have hlen := congrArg List.length (hpage.events.symm.trans hnil)
        rw [List.length_map, List.length_take_of_le hpage.within, List.length_nil] at hlen
        have hpos := hpage.some_left hleft
        omega
      have honward : ∀ c, here.page.nextCursor = some c → here.offset < c := by
        intro c hc
        have hc := hpage.next.symm.trans hc
        split at hc
        · next hmore =>
          cases hc
          have hpos := hpage.some_left (by omega)
          exact Nat.lt_add_of_pos_right hpos
        · cases hc
      rw [hp]
      dsimp only
      cases hcursor : p.nextCursor with
      | none =>
        refine ⟨?_, ?_, ?_, fun _ => ⟨here, rfl, ?_⟩⟩
        · exact fun v hv => List.mem_singleton.1 hv ▸ hevents
        · exact fun v hv => List.mem_singleton.1 hv ▸ hsome
        · exact fun v hv => List.mem_singleton.1 hv ▸ honward
        · -- no cursor: the page shows all that is left
          have hend := hpage.next.symm.trans hcursor
          have hall : l.length ≤ offset + p.shown := by
            split at hend
            · cases hend
            · omega
          rw [List.flatMap_singleton, hpiece, hlist]
          refine List.take_of_length_le ?_
          rw [List.length_drop]
          omega
      | some c =>
        obtain ⟨hevents', hsome', honward', hwhole'⟩ := ih hgrow c
        refine ⟨?_, ?_, ?_, ?_⟩
        · exact fun v hv => (List.mem_cons.1 hv).elim (fun h => h ▸ hevents) (hevents' v)
        · exact fun v hv => (List.mem_cons.1 hv).elim (fun h => h ▸ hsome) (hsome' v)
        · exact fun v hv => (List.mem_cons.1 hv).elim (fun h => h ▸ honward) (honward' v)
        · intro hended
          obtain ⟨last, hlast, hrest⟩ := hwhole' hended
          obtain ⟨hread, hfound⟩ := followTranscript_reads reads c last (List.mem_of_getLast? hlast)
          have hgrown : l <+: last.list q := hnext last.reading hread l (last.list q) hl hfound
          have hc := hpage.next.symm.trans hcursor
          split at hc
          case isFalse => cases hc
          rename_i hmore
          cases hc
          refine ⟨last, ?_, ?_⟩
          · rw [List.getLast?_cons, hlast]
            rfl
          · rw [List.flatMap_cons, hrest, drop_grown hgrown (Nat.le_of_lt hmore)]
            exact congrArg (· ++ _) hpiece

/-- A walk with more requests than the conversation has events ends. -/
theorem followTranscript_ends {reads : List Reading} (hne : reads ≠ []) {offset : Nat}
    (h : ∀ r ∈ reads, ∃ l, conversation r.found q = some l ∧ l.length < offset + reads.length) :
    (followTranscript q reads offset).2 = true := by
  induction reads generalizing offset with
  | nil => exact absurd rfl hne
  | cons r reads ih =>
    unfold followTranscript
    obtain ⟨l, hl, hlen⟩ := h r List.mem_cons_self
    rcases evalTranscript_spec r.found r.mask r.redact q offset with ⟨hnone, -⟩ | ⟨l', p, hl', hp, hpage⟩
    · rw [hl] at hnone
      cases hnone
    rw [hl] at hl'
    cases hl'
    rw [hp]
    dsimp only
    cases hcursor : p.nextCursor with
    | none => rfl
    | some c =>
      have hc := hpage.next.symm.trans hcursor
      split at hc
      case isFalse => cases hc
      rename_i hmore
      cases hc
      have hpos := hpage.some_left (by omega)
      rw [List.length_cons] at hlen
      dsimp only
      refine ih ?_ fun r' hr' => ?_
      · rintro rfl
        rw [List.length_nil] at hlen
        omega
      · obtain ⟨l', hl', hlen'⟩ := h r' (List.mem_cons_of_mem _ hr')
        rw [List.length_cons] at hlen'
        exact ⟨l', hl', by omega⟩

end Walk

end Antiproton.Export
