import Antiproton.Core.JsonParse
import Antiproton.Lib.Table

/-!
# Antiproton.Overflow.Chain

The main conversation read across the transcripts that rebuilds cut it into (`src/runtime/overflow-backstop.ts`). A rebuilt
transcript starts with the post that carried its briefing; `conversationMessages` walks the chain backwards and puts the
transcript it was built from in the briefing's place.

* `latest_append`: the latest messages of a sequence need only the latest of its first part.
* `spliceBriefing_carried`: a carrier is found, and leaves what its post said.
* `conversation_latest`: the walk returns the latest messages of the conversation it continues.
-/

namespace Antiproton.Chain

open Js

def BRIEFING_SCAN : Nat := 500

def MAIN_SESSION : Str := js "main"

/-! ## The tables -/

structure EntryRow where
  seq : Nat
  id : Str
  timestamp : Nat
  type : Str
  body : Str
deriving DecidableEq

structure BriefingEntry where
  id : Str
  timestamp : Nat
  message : Option Json
deriving DecidableEq

/-- The entries of each session that has its tables, and the briefings by conversation. -/
structure ObjectSql where
  entries : Str → Option (List EntryRow)
  briefings : Option (List (Str × Str))

def briefingOf (sql : ObjectSql) (sessionId : Str) : Option Str :=
  sql.briefings.bind fun rows => (Table.one (·.1 == sessionId) rows).map (·.2)

def parsed (r : EntryRow) : Option BriefingEntry :=
  (Js.parse r.body).map fun e => ⟨r.id, r.timestamp, e.field? (js "message")⟩

/-- The message rows of a session, oldest first. -/
def messageRows (sql : ObjectSql) (session : Str) : List EntryRow :=
  Table.orderBy (·.seq) (Table.select (·.type == js "message") ((sql.entries session).getD []))

def mainMessages (sql : ObjectSql) (limit : Nat) (session : Str) : List BriefingEntry :=
  (((messageRows sql session).reverse.take limit).filterMap parsed).reverse

/-! ## Splicing -/

def textOf : Option Json → Str
  | some (.str s) => s
  | some (.arr parts) => parts.flatMap fun p =>
    if p.field? (js "type") = some (.str (js "text")) then
      match p.field? (js "text") with
      | some (.str s) => s
      | _ => []
    else []
  | _ => []

def BriefingEntry.fromUser (e : BriefingEntry) : Bool :=
  e.message.bind (Json.field? (js "role")) == some (.str (js "user"))

def BriefingEntry.text (e : BriefingEntry) : Str := textOf (e.message.bind (Json.field? (js "content")))

/-- `s.indexOf(t)`, `none` for `-1`. -/
def indexOf (t s : Str) : Option Nat := (occurrences t s).head?

/-- What stands between a briefing and the post's own text. -/
def SEPARATOR : Str := js "\n\n---\n\n"

def withoutSeparator (s : Str) : Str := if startsWith SEPARATOR s then s.drop SEPARATOR.length else s

/-- `s.trim()` is not empty. -/
def hasText (s : Str) : Bool := s.any fun u => !isSpace u

def BriefingEntry.withText (e : BriefingEntry) (text : Str) : BriefingEntry :=
  { e with message := e.message.map fun
    | .obj fields => .obj (Map.set fields (js "content") (.arr [.obj [(js "type", .str (js "text")), (js "text", .str text)]]))
    | v => v }

def spliceBriefing (entries : List BriefingEntry) (briefing : Str) (prior : List BriefingEntry) : Option (List BriefingEntry) :=
  match entries.findIdx? (·.fromUser) with
  | none => none
  | some i =>
    match entries[i]? with
    | none => none
    | some e =>
      match indexOf briefing e.text with
      | none => none
      | some start =>
        let rest := withoutSeparator (e.text.drop (start + briefing.length))
        some (prior ++ entries.take i ++ (if hasText rest then [e.withText rest] else []) ++ entries.drop (i + 1))

/-! ## The walk -/

/-- A transcript of the chain, with its archived session. -/
structure Transcript where
  id : Str
  session : Option Str
deriving DecidableEq

/-- A transcript read, and how many messages were gathered before it. -/
structure TranscriptRead where
  session : Str
  gathered : Nat
deriving DecidableEq

/-- The chain from a transcript back, newest first. -/
def walkBack (sql : ObjectSql) (limit : Nat) : List Transcript → List BriefingEntry → List TranscriptRead →
    List BriefingEntry × List TranscriptRead
  | transcript :: prior :: rest, entries, reads =>
    if entries.length < limit * 4 then
      match briefingOf sql transcript.id, prior.session with
      | some briefing, some session =>
        let reads := reads ++ [⟨session, entries.length⟩]
        match spliceBriefing entries briefing (mainMessages sql limit session) with
        | some spliced => walkBack sql limit (prior :: rest) spliced reads
        | none => (entries, reads)
      | _, _ => (entries, reads)
    else (entries, reads)
  | _, entries, reads => (entries, reads)

/-- `entries.slice(-limit)`. -/
def sliceLast {A : Type} (limit : Nat) (entries : List A) : List A :=
  if limit = 0 then entries else entries.drop (entries.length - limit)

/-- The latest messages of the conversation, and what was read for them. -/
def conversationMessages (sql : ObjectSql) (transcripts : List Transcript) (limit : Nat) :
    List BriefingEntry × List TranscriptRead :=
  let r := walkBack sql limit transcripts.reverse (mainMessages sql limit MAIN_SESSION) [⟨MAIN_SESSION, 0⟩]
  (sliceLast limit r.1, r.2)

/-! ## The latest of a sequence -/

/-- The latest `n` of a list. -/
def latest {A : Type} (n : Nat) (l : List A) : List A := l.drop (l.length - n)

section Latest

variable {A B : Type} {n : Nat} {l m : List A}

theorem latest_of_le (h : l.length ≤ n) : latest n l = l := by
  rw [latest, Nat.sub_eq_zero_of_le h, List.drop_zero]

theorem length_latest (n : Nat) (l : List A) : (latest n l).length = min n l.length := by
  rw [latest, List.length_drop]
  omega

theorem mem_latest {x : A} (h : x ∈ latest n l) : x ∈ l := List.mem_of_mem_drop h

theorem latest_append_of_le (h : n ≤ m.length) (l : List A) : latest n (l ++ m) = latest n m := by
  have hcut : (l ++ m).length - n = l.length + (m.length - n) := by
    rw [List.length_append]
    omega
  rw [latest, latest, hcut, List.drop_append]
  have hdrop : l.drop (l.length + (m.length - n)) = [] := List.drop_eq_nil_of_le (Nat.le_add_right _ _)
  rw [hdrop, List.nil_append, Nat.add_sub_cancel_left]

/-- The latest of a sequence need only the latest of its first part. -/
theorem latest_append (n : Nat) (l m : List A) : latest n (latest n l ++ m) = latest n (l ++ m) := by
  rcases Nat.le_total l.length n with hle | hle
  · rw [latest_of_le hle]
  · have hsplit : l ++ m = l.take (l.length - n) ++ (latest n l ++ m) := by
      rw [← List.append_assoc, latest, List.take_append_drop]
    have hlen : n ≤ (latest n l ++ m).length := by
      rw [List.length_append, length_latest]
      omega
    rw [hsplit, latest_append_of_le hlen]

theorem latest_filterMap {p : A → Option B} (h : ∀ a ∈ l, (p a).isSome = true) :
    (latest n l).filterMap p = latest n (l.filterMap p) := by
  have hlen : ∀ k : List A, (∀ a ∈ k, (p a).isSome = true) → (k.filterMap p).length = k.length := by
    intro k hk
    induction k with
    | nil => rfl
    | cons a k ih =>
      obtain ⟨b, hb⟩ := Option.isSome_iff_exists.1 (hk a List.mem_cons_self)
      rw [List.filterMap_cons_some hb, List.length_cons, List.length_cons, ih fun x hx => hk x (List.mem_cons_of_mem _ hx)]
  have hcut : l.filterMap p = (l.take (l.length - n)).filterMap p ++ (latest n l).filterMap p := by
    rw [← List.filterMap_append, latest, List.take_append_drop]
  have hfirst : ((l.take (l.length - n)).filterMap p).length = l.length - n := by
    rw [hlen _ fun a ha => h a (List.mem_of_mem_take ha), List.length_take]
    omega
  have hdrop : latest n (l.filterMap p) = (l.filterMap p).drop (l.length - n) := by rw [latest, hlen l h]
  rw [hdrop, hcut]
  exact (List.drop_left' hfirst).symm

end Latest

/-! ## A rebuilt transcript -/

/-- The messages of a session, oldest first. -/
def transcriptOf (sql : ObjectSql) (session : Str) : List BriefingEntry := (messageRows sql session).filterMap parsed

/-- Every message row of a session is one the engine wrote. -/
def Written (sql : ObjectSql) (session : Str) : Prop := ∀ r ∈ messageRows sql session, (parsed r).isSome = true

theorem mainMessages_eq {sql : ObjectSql} {session : Str} (h : Written sql session) (limit : Nat) :
    mainMessages sql limit session = latest limit (transcriptOf sql session) := by
  rw [mainMessages, List.take_reverse, List.filterMap_reverse, List.reverse_reverse]
  exact latest_filterMap h

/-- The post that carried a briefing, after the notices it was given, before its own text where it had one. -/
structure Carries (briefing : Str) (e : BriefingEntry) (own : Str) : Prop where
  user : e.fromUser = true
  text : ∃ notices tail, e.text = notices ++ briefing ++ tail ∧ indexOf briefing e.text = some notices.length ∧
    (tail = [] ∧ own = [] ∨ own ≠ [] ∧ tail = SEPARATOR ++ own)

/-- What the post itself said. -/
def said (e : BriefingEntry) (own : Str) : List BriefingEntry := if hasText own then [e.withText own] else []

theorem withoutSeparator_tail {tail own : Str} (h : tail = [] ∧ own = [] ∨ own ≠ [] ∧ tail = SEPARATOR ++ own) :
    withoutSeparator tail = own := by
  rcases h with ⟨rfl, rfl⟩ | ⟨-, rfl⟩
  · exact if_neg (by decide)
  · have hstarts : startsWith SEPARATOR (SEPARATOR ++ own) = true := List.isPrefixOf_iff_prefix.2 (List.prefix_append _ _)
    rw [withoutSeparator, if_pos hstarts, List.drop_left]

/-- A carrier at the head is found, and leaves what its post said. -/
theorem spliceBriefing_carried {briefing own : Str} {e : BriefingEntry} (h : Carries briefing e own)
    (rest prior : List BriefingEntry) : spliceBriefing (e :: rest) briefing prior = some (prior ++ (said e own ++ rest)) := by
  obtain ⟨notices, tail, htext, hat, htail⟩ := h.text
  have hdrop : e.text.drop (notices.length + briefing.length) = tail := by
    rw [htext, ← List.length_append, List.drop_left]
  unfold spliceBriefing
  rw [List.findIdx?_cons, if_pos h.user]
  dsimp only
  rw [List.getElem?_cons_zero]
  dsimp only
  rw [hat]
  dsimp only
  rw [hdrop, withoutSeparator_tail htail]
  simp only [List.take_zero, List.append_nil, Nat.zero_add, List.drop_succ_cons, List.drop_zero, said,
    List.append_assoc]

/-- Where no message of a user quotes the briefing, nothing is spliced. -/
theorem spliceBriefing_absent {briefing : Str} {entries : List BriefingEntry} (prior : List BriefingEntry)
    (h : ∀ e ∈ entries, e.fromUser = true → indexOf briefing e.text = none) : spliceBriefing entries briefing prior = none := by
  unfold spliceBriefing
  cases hi : entries.findIdx? (·.fromUser) with
  | none => rfl
  | some i =>
    obtain ⟨hlt, huser, -⟩ := List.findIdx?_eq_some_iff_getElem.1 hi
    dsimp only
    rw [List.getElem?_eq_getElem hlt]
    dsimp only
    rw [h _ (List.getElem_mem hlt) huser]

/-! ## The chain -/

/-- A chain of transcripts, newest first, and the one conversation they are: each rebuilt one starts with its carrier. -/
inductive Chained (sql : ObjectSql) : Str → List Transcript → List BriefingEntry → Prop where
  | first (session : Str) (t : Transcript) : Chained sql session [t] (transcriptOf sql session)
  | rebuilt {session before : Str} {t prior : Transcript} {rest : List Transcript} {briefing own : Str} {carrier : BriefingEntry}
    {later earlier : List BriefingEntry} (hbrief : briefingOf sql t.id = some briefing) (hprior : prior.session = some before)
    (hrows : transcriptOf sql session = carrier :: later) (hcarries : Carries briefing carrier own)
    (h : Chained sql before (prior :: rest) earlier) :
    Chained sql session (t :: prior :: rest) (earlier ++ (said carrier own ++ later))

/-- No message of a user quotes a briefing of the chain. -/
def Unquoted (sql : ObjectSql) (transcripts : List Transcript) (entries : List BriefingEntry) : Prop :=
  ∀ t ∈ transcripts, ∀ briefing, briefingOf sql t.id = some briefing → ∀ e ∈ entries, e.fromUser = true →
    indexOf briefing e.text = none

section Walk

variable {sql : ObjectSql}

/-- The walk gathers enough: its latest messages are those of the conversation from the chain's start. -/
theorem walkBack_latest (limit : Nat) (hwritten : ∀ session, Written sql session) {session : Str} {ts : List Transcript}
    {whole : List BriefingEntry} (h : Chained sql session ts whole) (newer : List BriefingEntry)
    (hquiet : Unquoted sql ts (whole ++ newer)) (reads : List TranscriptRead) :
    latest limit (walkBack sql limit ts (latest limit (transcriptOf sql session) ++ newer) reads).1 =
      latest limit (whole ++ newer) := by
  induction h generalizing newer reads with
  | first session t => exact latest_append ..
  | @rebuilt session before t prior rest briefing own carrier later earlier hbrief hprior hrows hcarries h ih =>
    rw [walkBack]
    split
    · rw [hbrief, hprior]
      dsimp only
      rw [mainMessages_eq (hwritten before), hrows]
      rcases Nat.lt_or_ge limit (carrier :: later).length with hlong | hshort
      · -- the carrier is out of the window, and nothing in it is spliced
        have hle : limit ≤ later.length := Nat.le_of_lt_succ hlong
        have hwindow : latest limit (carrier :: later) = latest limit later := latest_append_of_le hle [carrier]
        rw [hwindow, spliceBriefing_absent _ fun e he huser => ?_]
        · dsimp only
          rw [latest_append, List.append_assoc, List.append_assoc]
          have hlen : limit ≤ (later ++ newer).length := by
            rw [List.length_append]
            omega
          rw [← List.append_assoc earlier, latest_append_of_le hlen]
        · refine hquiet t List.mem_cons_self briefing hbrief e ?_ huser
          rcases List.mem_append.1 he with he | he
          · exact List.mem_append_left _ (List.mem_append_right _ (List.mem_append_right _ (mem_latest he)))
          · exact List.mem_append_right _ he
      · rw [latest_of_le hshort, List.cons_append, spliceBriefing_carried hcarries]
        dsimp only
        have hnext := ih (said carrier own ++ (later ++ newer)) (fun t' ht' b hb e he => ?_)
          (reads ++ [⟨before, (carrier :: (later ++ newer)).length⟩])
        · rw [hnext]
          simp only [List.append_assoc]
        · refine hquiet t' (List.mem_cons_of_mem _ ht') b hb e ?_
          simp only [List.append_assoc]
          exact he
    · next henough =>
      have hlen : limit ≤ newer.length := by
        rw [List.length_append, length_latest] at henough
        omega
      rw [latest_append_of_le hlen, latest_append_of_le hlen]

/-- Older transcripts are read newest first, each once, and only while fewer than four times the limit are gathered. -/
theorem walkBack_reads (limit : Nat) (ts : List Transcript) (entries : List BriefingEntry) (reads : List TranscriptRead) :
    ∃ more, (walkBack sql limit ts entries reads).2 = reads ++ more ∧
      more.map (fun r => some r.session) <+: ts.tail.map (·.session) ∧ ∀ r ∈ more, r.gathered < limit * 4 := by
  have hnone : ∃ more, reads = reads ++ more ∧ more.map (fun r => some r.session) <+: ts.tail.map (·.session) ∧
      ∀ r ∈ more, r.gathered < limit * 4 :=
    ⟨[], (List.append_nil _).symm, List.nil_prefix, fun r hr => absurd hr List.not_mem_nil⟩
  induction ts generalizing entries reads with
  | nil => exact hnone
  | cons t rest ih =>
    cases rest with
    | nil => exact hnone
    | cons prior rest =>
      rw [walkBack]
      split
      · next hfew =>
        split
        · next briefing session hbrief hprior =>
          dsimp only
          have hread : ∀ r ∈ [(⟨session, entries.length⟩ : TranscriptRead)], r.gathered < limit * 4 := by
            intro r hr
            rw [List.mem_singleton.1 hr]
            exact hfew
          split
          · next spliced hspliced =>
            obtain ⟨more, heq, hgrown, hmore⟩ := ih spliced (reads ++ [⟨session, entries.length⟩])
              ⟨[], (List.append_nil _).symm, List.nil_prefix, fun r hr => absurd hr List.not_mem_nil⟩
            refine ⟨⟨session, entries.length⟩ :: more, ?_, ?_, fun r hr => ?_⟩
            · rw [heq, List.append_assoc]
              rfl
            · rw [List.map_cons, List.tail_cons, List.map_cons, hprior]
              exact List.cons_prefix_cons.2 ⟨rfl, hgrown⟩
            · rcases List.mem_cons.1 hr with rfl | hr
              · exact hfew
              · exact hmore r hr
          · refine ⟨[⟨session, entries.length⟩], rfl, ?_, hread⟩
            rw [List.map_singleton, List.tail_cons, List.map_cons, hprior]
            exact List.cons_prefix_cons.2 ⟨rfl, List.nil_prefix⟩
        · exact hnone
      · exact hnone

theorem walkBack_none (ts : List Transcript) (reads : List TranscriptRead) : (walkBack sql 0 ts [] reads).1 = [] := by
  cases ts with
  | nil => rfl
  | cons t rest =>
    cases rest with
    | nil => rfl
    | cons prior rest =>
      rw [walkBack, if_neg (Nat.not_lt_zero _)]

end Walk

/-- The chain reads back as one conversation: its latest messages, each carrier as what its post said. -/
theorem conversation_latest {sql : ObjectSql} {transcripts : List Transcript} {whole : List BriefingEntry}
    (hwritten : ∀ session, Written sql session) (h : Chained sql MAIN_SESSION transcripts.reverse whole)
    (hquiet : Unquoted sql transcripts whole) (limit : Nat) :
    (conversationMessages sql transcripts limit).1 = latest limit whole ∧
      (conversationMessages sql transcripts limit).1.length ≤ limit ∧
      Unquoted sql transcripts (conversationMessages sql transcripts limit).1 ∧
      ∃ more, (conversationMessages sql transcripts limit).2 = ⟨MAIN_SESSION, 0⟩ :: more ∧
        more.map (fun r => some r.session) <+: transcripts.reverse.tail.map (·.session) ∧ ∀ r ∈ more, r.gathered < limit * 4 := by
  have hsame : (conversationMessages sql transcripts limit).1 = latest limit whole := by
    have hwalk := walkBack_latest limit hwritten h [] (fun t ht b hb e he => hquiet t (List.mem_reverse.1 ht) b hb e
      (by rwa [List.append_nil] at he)) [⟨MAIN_SESSION, 0⟩]
    rw [List.append_nil, List.append_nil] at hwalk
    rw [← hwalk, conversationMessages, mainMessages_eq (hwritten _)]
    dsimp only
    unfold sliceLast
    split
    · next hzero =>
      subst hzero
      have hnil : latest 0 (transcriptOf sql MAIN_SESSION) = [] := List.drop_length
      rw [hnil, walkBack_none]
      rfl
    · rfl
  refine ⟨hsame, ?_, ?_, walkBack_reads limit _ _ _⟩
  · rw [hsame, length_latest]
    exact Nat.min_le_left _ _
  · rw [hsame]
    exact fun t ht b hb e he => hquiet t ht b hb e (mem_latest he)

/-- A message of a role, as the engine writes its row. -/
def aRow (seq : Nat) (role text : String) : EntryRow :=
  ⟨seq, [], 0, js "message",
    (Json.obj [(js "message", .obj [(js "role", .str (js role)), (js "content", .str (js text))])]).stringify⟩

/-- A conversation rebuilt once: the rows of the old transcript, and those of the new one. -/
def rebuiltSql (old new : List EntryRow) : ObjectSql :=
  ⟨fun session => if session = MAIN_SESSION then some new else if session = js "old" then some old else none,
    some [(js "main.1", js "so far")]⟩

def aChain : List Transcript := [⟨js "main", some (js "old")⟩, ⟨js "main.1", none⟩]

def asked : List EntryRow := [aRow 1 "user" "hello", aRow 2 "assistant" "hi"]

theorem written_rebuilt {old new : List EntryRow} (hold : ∀ r ∈ old, (parsed r).isSome = true)
    (hnew : ∀ r ∈ new, (parsed r).isSome = true) (session : Str) : Written (rebuiltSql old new) session := by
  intro r hr
  have hmem := (List.mem_filter.1 ((Table.orderBy_perm _ _).mem_iff.1 hr)).1
  simp only [rebuiltSql] at hmem
  split at hmem
  · exact hnew r hmem
  · split at hmem
    · exact hold r hmem
    · exact absurd hmem List.not_mem_nil

/-- The conversation that a rebuilt transcript continues, its carrier's post having said `own`. -/
def wholeOf (old new : List EntryRow) (own : Str) : List BriefingEntry :=
  transcriptOf (rebuiltSql old new) (js "old") ++
    (said ((transcriptOf (rebuiltSql old new) MAIN_SESSION).headD ⟨[], 0, none⟩) own ++
      (transcriptOf (rebuiltSql old new) MAIN_SESSION).tail)

theorem chained_rebuilt {old new : List EntryRow} {carrier : BriefingEntry} {later : List BriefingEntry} {own : Str}
    (hrows : transcriptOf (rebuiltSql old new) MAIN_SESSION = carrier :: later) (hcarries : Carries (js "so far") carrier own) :
    Chained (rebuiltSql old new) MAIN_SESSION aChain.reverse (wholeOf old new own) := by
  have hbrief : briefingOf (rebuiltSql old new) (js "main.1") = some (js "so far") := by
    change (Table.one (·.1 == js "main.1") [(js "main.1", js "so far")]).map (·.2) = some (js "so far")
    decide
  rw [wholeOf, hrows]
  exact .rebuilt hbrief rfl hrows hcarries (.first (js "old") _)

def userEntry (text : String) : BriefingEntry :=
  ⟨[], 0, some (.obj [(js "role", .str (js "user")), (js "content", .str (js text))])⟩

def modelEntry (text : String) : BriefingEntry :=
  ⟨[], 0, some (.obj [(js "role", .str (js "assistant")), (js "content", .str (js text))])⟩

/-- The briefing carried before the post's own text, behind a notice. -/
def answered : List EntryRow := [aRow 1 "user" "note\n\nso far\n\n---\n\ngo on", aRow 2 "assistant" "done"]

theorem answered_chained : Chained (rebuiltSql asked answered) MAIN_SESSION aChain.reverse (wholeOf asked answered (js "go on")) := by
  have hrows : transcriptOf (rebuiltSql asked answered) MAIN_SESSION =
      [userEntry "note\n\nso far\n\n---\n\ngo on", modelEntry "done"] := by decide +kernel
  exact chained_rebuilt hrows ⟨by decide +kernel, js "note\n\n", SEPARATOR ++ js "go on", by decide +kernel, by decide +kernel,
    .inr ⟨by decide, rfl⟩⟩

theorem conversation_latest_three :
    ((conversationMessages (rebuiltSql asked answered) aChain 3).1.map (·.text)) = [js "hi", js "go on", js "done"] ∧
      (conversationMessages (rebuiltSql asked answered) aChain 3).1 = latest 3 (wholeOf asked answered (js "go on")) := by
  have hquiet : Unquoted (rebuiltSql asked answered) aChain (wholeOf asked answered (js "go on")) := by
    have hall : ∀ t ∈ aChain, ∀ b ∈ briefingOf (rebuiltSql asked answered) t.id, ∀ e ∈ wholeOf asked answered (js "go on"),
        e.fromUser = true → indexOf b e.text = none := by decide +kernel
    exact fun t ht b hb => hall t ht b hb
  have hwritten := @written_rebuilt asked answered (by decide +kernel) (by decide +kernel)
  exact ⟨by decide +kernel, (conversation_latest hwritten answered_chained hquiet 3).1⟩

/-- The post that carried the briefing alone, and then a message that quotes it. -/
def quoted : List EntryRow := [aRow 1 "user" "so far", aRow 2 "user" "you wrote: so far, and more"]

theorem quoted_chained : Chained (rebuiltSql asked quoted) MAIN_SESSION aChain.reverse (wholeOf asked quoted []) := by
  have hrows : transcriptOf (rebuiltSql asked quoted) MAIN_SESSION =
      [userEntry "so far", userEntry "you wrote: so far, and more"] := by decide +kernel
  exact chained_rebuilt hrows ⟨by decide +kernel, [], [], by decide +kernel, by decide +kernel, .inl ⟨rfl, rfl⟩⟩

/-- A message that quotes the briefing is cut where the window begins with it; and the old transcript is read for a window
that the new one fills. -/
theorem quote_cut_and_read :
    (Chained (rebuiltSql asked quoted) MAIN_SESSION aChain.reverse (wholeOf asked quoted []) ∧
        (conversationMessages (rebuiltSql asked quoted) aChain 1).1.map (·.text) = [js ", and more"] ∧
        (latest 1 (wholeOf asked quoted [])).map (·.text) = [js "you wrote: so far, and more"]) ∧
      (conversationMessages (rebuiltSql asked answered) aChain 1).1 =
        latest 1 (transcriptOf (rebuiltSql asked answered) MAIN_SESSION) ∧
      (conversationMessages (rebuiltSql asked answered) aChain 1).2 = [⟨MAIN_SESSION, 0⟩, ⟨js "old", 1⟩] :=
  ⟨⟨quoted_chained, by decide +kernel, by decide +kernel⟩, by decide +kernel, by decide +kernel⟩

end Antiproton.Chain
