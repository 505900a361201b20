import Antiproton.Core.Js
import Antiproton.Document.Lines
import Antiproton.Lib.Rewrite
import Mathlib.Data.List.Chain
import Mathlib.Data.List.TakeWhile

/-!
# Antiproton.Store.MaskRefs

The references of an agent's artifacts (`src/store/refs.ts`) in texts of any units: which key one names, how a key is shown,
and how every reference into the agent's scope in a text is rewritten to the form it is shown in.

* `scopeOf_inj`: no two owners share a key.
* `apart_scope`, `apart_raw`: what is taken out of a text shares nothing with what is put in.
* `refs_masked`: what the three functions agree on.
-/

namespace Antiproton.MaskRefs

open Js Rewrite

/-- An owner whose ids are not empty and hold no slash. -/
structure RefOwner where
  tenantId : Str
  agentId : Str
  tenant_ne : tenantId ≠ []
  agent_ne : agentId ≠ []
  tenant_plain : ∀ u ∈ tenantId, u ≠ unit '/'
  agent_plain : ∀ u ∈ agentId, u ≠ unit '/'

/-- `AGENT_REF`. -/
def AGENT_REF : Str := js "artifact://"

def scopeOf (o : RefOwner) : Str := js "t/" ++ o.tenantId ++ js "/" ++ o.agentId ++ js "/"

/-- What `RAW` matches between its slashes. -/
def bucketOf (ref : Str) : Str := (ref.drop 5).takeWhile (· != unit '/')

/-- `ref.replace(RAW, "")` where `RAW` matches. -/
def rawKey (ref : Str) : Option Str :=
  if startsWith (js "r2://") ref then
    match (ref.drop 5).dropWhile (· != unit '/') with
    | _ :: key => if bucketOf ref = [] then none else some key
    | [] => none
  else none

/-- `String(refOrKey).replace(RAW, "")`. -/
def withoutRaw (ref : Str) : Str := (rawKey ref).getD ref

/-- A segment that is empty, or moves. -/
def isMove (s : Str) : Bool := s == [] || s == js "." || s == js ".."

def plainPath (path : Str) : Bool := path != [] && !(splitOn (unit '/') path).any isMove

def toAgentRef (refOrKey : Str) (owner : RefOwner) : Option Str :=
  let key := withoutRaw refOrKey
  if startsWith (scopeOf owner) key then
    let path := key.drop (scopeOf owner).length
    if plainPath path then some (AGENT_REF ++ path) else none
  else none

def keyForRef (ref : Str) (caller : RefOwner) : Option Str :=
  if startsWith AGENT_REF ref then
    let path := ref.drop AGENT_REF.length
    if plainPath path then some (scopeOf caller ++ path) else none
  else
    match rawKey ref with
    | some key =>
      if startsWith (scopeOf caller) key && plainPath (key.drop (scopeOf caller).length) then some key else none
    | none => none

/-! ## The masker -/

/-- `[A-Za-z0-9._-]`. -/
def bucketUnit (u : UInt16) : Bool :=
  (0x41 ≤ u && u ≤ 0x5A) || (0x61 ≤ u && u ≤ 0x7A) || (0x30 ≤ u && u ≤ 0x39) || u == unit '.' || u == unit '_' ||
    u == unit '-'

/-- A unit of a path: those of a bucket's name, and the slash. -/
def pathUnit (u : UInt16) : Bool := bucketUnit u || u == unit '/'

/-- A raw reference into a scope, up to the path. -/
def rawRef (o : RefOwner) (bucket : Str) : Str := js "r2://" ++ bucket ++ js "/" ++ scopeOf o

/-- `r2://[A-Za-z0-9._-]+/<scope>`. -/
def raw (o : RefOwner) : Pattern UInt16 := fun _ l =>
  let bucket := (l.drop 5).takeWhile bucketUnit
  if bucket ≠ [] ∧ startsWith (rawRef o bucket) l = true then some ⟨[], rawRef o bucket⟩ else none

/-- `(^|[^…])<scope>`, the class being a path's units. -/
def bare (o : RefOwner) : Pattern UInt16 := fun start l =>
  if start = true ∧ startsWith (scopeOf o) l = true then some ⟨[], scopeOf o⟩
  else
    match l with
    | u :: rest => if pathUnit u = false ∧ startsWith (scopeOf o) rest = true then some ⟨[u], scopeOf o⟩ else none
    | [] => none

def maskRawRefs (text : Str) (o : RefOwner) : Str :=
  replaceAll (bare o) AGENT_REF (replaceAll (raw o) AGENT_REF text)

/-! ## What a text holds -/

/-- A raw reference into the scope, under a bucket's name as one is written. -/
def HasRaw (o : RefOwner) (text : Str) : Prop :=
  ∃ before bucket after, bucket ≠ [] ∧ bucket.all bucketUnit = true ∧ text = before ++ rawRef o bucket ++ after

/-- A path can start here. -/
def PathStart (before : Str) : Prop := ∀ u, before.getLast? = some u → pathUnit u = false

/-- A bare key of the scope where a path can start. -/
def HasBare (o : RefOwner) (text : Str) : Prop := ∃ before after, text = before ++ scopeOf o ++ after ∧ PathStart before

/-! ## Slashes -/

section Slashes

/-- No two slashes in a row. -/
abbrev Single (l : Str) : Prop := l.IsChain fun u v => ¬(u = unit '/' ∧ v = unit '/')

theorem not_single (x y : Str) : ¬Single (x ++ unit '/' :: unit '/' :: y) := by
  intro h
  have hright := (List.isChain_append.1 h).2.1
  exact (List.isChain_cons_cons.1 hright).1 ⟨rfl, rfl⟩

theorem single_plain {s : Str} (hs : ∀ u ∈ s, u ≠ unit '/') : Single s := by
  induction s with
  | nil => exact .nil
  | cons u s ih =>
    have hrest := ih fun v hv => hs v (List.mem_cons_of_mem _ hv)
    cases s with
    | nil => exact .singleton u
    | cons v s => exact .cons_cons (fun h => hs u List.mem_cons_self h.1) hrest

/-- A segment between slashes. -/
theorem single_segment {s l : Str} (hne : s ≠ []) (hs : ∀ u ∈ s, u ≠ unit '/') (hl : Single l) :
    Single (unit '/' :: s ++ l) := by
  refine List.isChain_append.2 ⟨?_, hl, fun u hu v hv h => ?_⟩
  · obtain ⟨u, s, rfl⟩ := List.exists_cons_of_ne_nil hne
    exact .cons_cons (fun h => hs u List.mem_cons_self h.2) (single_plain hs)
  · have hlast : (unit '/' :: s).getLast? = s.getLast? := by
      obtain ⟨u, s, rfl⟩ := List.exists_cons_of_ne_nil hne
      rfl
    rw [hlast] at hu
    exact hs u (List.mem_of_getLast? hu) h.1

end Slashes

/-! ## What the patterns find -/

section Patterns

variable {o : RefOwner} {start : Bool} {l before after bucket ref key : Str} {u : UInt16} {m : Match UInt16}

theorem slash_js : js "/" = [unit '/'] := by decide

theorem startsWith_iff {w : Str} : startsWith w l = true ↔ ∃ rest, l = w ++ rest := by
  rw [startsWith, List.isPrefixOf_iff_prefix]
  exact ⟨fun ⟨rest, h⟩ => ⟨rest, h.symm⟩, fun ⟨rest, h⟩ => ⟨rest, h.symm⟩⟩

theorem rawRef_ne (o : RefOwner) (bucket : Str) : rawRef o bucket ≠ [] := by
  have hr2 : js "r2://" ≠ [] := by decide
  simp [rawRef, hr2]

theorem scopeOf_ne (o : RefOwner) : scopeOf o ≠ [] := by
  have ht : js "t/" ≠ [] := by decide
  simp [scopeOf, ht]

/-- What stands after the scheme. -/
theorem drop_scheme (bucket after : Str) :
    (js "r2://" ++ bucket ++ js "/" ++ after).drop 5 = bucket ++ unit '/' :: after := by
  have hlength : (js "r2://").length = 5 := by decide
  rw [slash_js, List.append_assoc, List.append_assoc, List.drop_left' hlength]
  rfl

theorem rawKey_of (hne : bucket ≠ []) (hplain : ∀ u ∈ bucket, u ≠ unit '/') :
    rawKey (js "r2://" ++ bucket ++ js "/" ++ key) = some key ∧
      bucketOf (js "r2://" ++ bucket ++ js "/" ++ key) = bucket := by
  have hall : ∀ u ∈ bucket, (u != unit '/') = true := fun u hu => bne_iff_ne.2 (hplain u hu)
  have hend : (unit '/' != unit '/') = false := by decide
  have hbucket : bucketOf (js "r2://" ++ bucket ++ js "/" ++ key) = bucket := by
    rw [bucketOf, drop_scheme, List.takeWhile_append_of_pos hall, List.takeWhile_cons, hend]
    exact List.append_nil _
  have hstarts : startsWith (js "r2://") (js "r2://" ++ bucket ++ js "/" ++ key) = true :=
    startsWith_iff.2 ⟨bucket ++ js "/" ++ key, by simp only [List.append_assoc]⟩
  have hrest : (bucket ++ unit '/' :: key).dropWhile (· != unit '/') = unit '/' :: key := by
    rw [List.dropWhile_append_of_pos hall, List.dropWhile_cons, hend]
    rfl
  refine ⟨?_, hbucket⟩
  rw [rawKey, if_pos hstarts, drop_scheme, hrest, hbucket]
  exact if_neg hne

theorem rawKey_some (h : rawKey ref = some key) :
    bucketOf ref ≠ [] ∧ (∀ u ∈ bucketOf ref, u ≠ unit '/') ∧ ref = js "r2://" ++ bucketOf ref ++ js "/" ++ key := by
  rw [rawKey] at h
  split at h
  · rename_i hstarts
    obtain ⟨rest, rfl⟩ := startsWith_iff.1 hstarts
    have hlength : (js "r2://").length = 5 := by decide
    have hsplit := List.takeWhile_append_dropWhile (p := (· != unit '/')) (l := rest)
    rw [List.drop_left' hlength] at h
    split at h
    · rename_i v key' hdrop
      split at h
      · cases h
      · rename_i hne
        cases h
        have hv : v = unit '/' := by
          have hsome : rest.dropWhile (· != unit '/') ≠ [] := by
            rw [hdrop]
            exact List.cons_ne_nil _ _
          have hhead := List.head_dropWhile_not (p := (· != unit '/')) hsome
          simp only [hdrop, List.head_cons] at hhead
          simpa using hhead
        have hbucket : bucketOf (js "r2://" ++ rest) = rest.takeWhile (· != unit '/') := by
          rw [bucketOf, List.drop_left' hlength]
        refine ⟨hne, fun u hu => ?_, ?_⟩
        · rw [hbucket] at hu
          have hkept := List.mem_takeWhile_imp (p := (· != unit '/')) hu
          exact bne_iff_ne.1 hkept
        · rw [hbucket, slash_js, List.append_assoc, List.append_assoc, List.singleton_append]
          rw [hdrop, hv] at hsplit
          rw [hsplit]
    · cases h
  · cases h

theorem bucket_plain (hall : bucket.all bucketUnit = true) : ∀ u ∈ bucket, u ≠ unit '/' := by
  rintro u hu rfl
  have hslash := List.all_eq_true.1 hall _ hu
  revert hslash
  decide

theorem raw_of (hne : bucket ≠ []) (hall : bucket.all bucketUnit = true) :
    raw o start (rawRef o bucket ++ after) = some ⟨[], rawRef o bucket⟩ := by
  have hslash : bucketUnit (unit '/') = false := by decide
  have hbucket : ((rawRef o bucket ++ after).drop 5).takeWhile bucketUnit = bucket := by
    rw [rawRef, List.append_assoc, drop_scheme, List.takeWhile_append_of_pos (List.all_eq_true.1 hall), List.takeWhile_cons,
      hslash]
    exact List.append_nil _
  rw [raw, hbucket]
  exact if_pos ⟨hne, startsWith_iff.2 ⟨after, rfl⟩⟩

theorem raw_some (h : raw o start l = some m) :
    ∃ bucket, bucket ≠ [] ∧ bucket.all bucketUnit = true ∧ m = ⟨[], rawRef o bucket⟩ ∧
      ∃ rest, l = rawRef o bucket ++ rest := by
  rw [raw] at h
  split at h
  · rename_i hfound
    cases h
    refine ⟨_, hfound.1, ?_, rfl, startsWith_iff.1 hfound.2⟩
    exact List.all_eq_true.2 fun u hu => List.mem_takeWhile_imp hu
  · cases h

theorem bare_start (h : ∃ rest, l = scopeOf o ++ rest) : bare o true l = some ⟨[], scopeOf o⟩ := by
  rw [bare.eq_def]
  exact if_pos ⟨rfl, startsWith_iff.2 h⟩

theorem bare_after (hu : pathUnit u = false) (h : ∃ rest, l = scopeOf o ++ rest) : bare o start (u :: l) ≠ none := by
  rw [bare.eq_def]
  split
  · exact Option.some_ne_none _
  · simp only [hu, startsWith_iff.2 h, and_self, if_true]
    exact Option.some_ne_none _

theorem bare_some (h : bare o start l = some m) :
    m.taken = scopeOf o ∧ (start = true ∧ m.kept = [] ∨ ∃ u, pathUnit u = false ∧ m.kept = [u]) ∧
      ∃ rest, l = m.kept ++ m.taken ++ rest := by
  rw [bare.eq_def] at h
  split at h
  · rename_i hfound
    cases h
    exact ⟨rfl, .inl ⟨hfound.1, rfl⟩, startsWith_iff.1 hfound.2⟩
  · split at h
    · rename_i v rest _
      split at h
      · rename_i hfound
        cases h
        obtain ⟨rest', hrest⟩ := startsWith_iff.1 hfound.2
        exact ⟨rfl, .inr ⟨v, hfound.1, rfl⟩, rest', congrArg (v :: ·) hrest⟩
      · cases h
    · cases h

theorem raw_lawful (o : RefOwner) : Lawful (raw o) where
  here h := by
    obtain ⟨bucket, -, -, rfl, rest, rfl⟩ := raw_some h
    exact ⟨rest, rfl⟩
  taken h := by
    obtain ⟨bucket, -, -, rfl, -⟩ := raw_some h
    exact rawRef_ne o bucket
  kept h := by
    obtain ⟨bucket, -, -, rfl, -⟩ := raw_some h
    exact .inl rfl

theorem bare_lawful (o : RefOwner) : Lawful (bare o) where
  here h := (bare_some h).2.2
  taken h := by
    rw [(bare_some h).1]
    exact scopeOf_ne o
  kept h := by
    rcases (bare_some h).2.1 with ⟨-, hkept⟩ | ⟨u, -, hkept⟩
    · exact .inl hkept
    · exact .inr ⟨u, hkept⟩

end Patterns

/-! ## Words apart -/

section Words

variable {o : RefOwner} {bucket s x y : Str}

theorem single_scope (o : RefOwner) : Single (unit '/' :: scopeOf o) := by
  have ht : ∀ u ∈ [unit 't'], u ≠ unit '/' := by
    intro u hu
    rw [List.mem_singleton.1 hu]
    decide
  have hsegments : unit '/' :: scopeOf o =
      unit '/' :: [unit 't'] ++ (unit '/' :: o.tenantId ++ (unit '/' :: o.agentId ++ [unit '/'])) := by
    have hjs : js "t/" = [unit 't', unit '/'] := by decide
    simp [scopeOf, hjs, slash_js]
  rw [hsegments]
  refine single_segment (List.cons_ne_nil _ _) ht (single_segment o.tenant_ne o.tenant_plain ?_)
  exact single_segment o.agent_ne o.agent_plain (.singleton _)

theorem scope_end (o : RefOwner) : scopeOf o = (js "t/" ++ o.tenantId ++ [unit '/']) ++ o.agentId ++ [unit '/'] := by
  rw [scopeOf, slash_js]

theorem AGENT_eq : AGENT_REF = js "artifact:" ++ [unit '/', unit '/'] := by decide

/-- Nothing that ends as a scope does begins as the shown form does, unless the agent's id ends so. -/
theorem no_end (hagent : ¬js "artifact:" <:+ o.agentId) (hs : s ≠ [])
    (hend : s <:+ x ++ [unit '/'] ++ o.agentId ++ [unit '/']) (hstart : s <+: AGENT_REF) : False := by
  obtain ⟨t, rfl, ht⟩ := (List.suffix_concat_iff.1 hend).resolve_left hs
  have hall : ∀ w ∈ AGENT_REF.inits, w ++ [unit '/'] <+: AGENT_REF →
      w = js "artifact:" ∨ w = js "artifact:" ++ [unit '/'] := by decide
  rcases hall t ((List.mem_inits _ _).2 ((List.prefix_append _ _).trans hstart)) hstart with rfl | rfl
  · -- The word, before the last slash.
    have hnone : unit '/' ∉ js "artifact:" := by decide
    rcases List.suffix_or_suffix_of_suffix ht (List.suffix_append _ _) with hin | ⟨w, hw⟩
    · exact hagent hin
    · rw [← hw] at ht hnone
      rcases List.suffix_concat_iff.1 ((List.suffix_append_inj_of_length_eq rfl).1 ht).1 with rfl | ⟨w', rfl, -⟩
      · exact hagent (by rw [← hw]; exact List.suffix_refl _)
      · exact hnone (by simp)
  · -- The word with a slash, before the last one.
    obtain ⟨init, u, hu⟩ : ∃ init u, o.agentId = init ++ [u] :=
      ⟨_, _, (List.dropLast_append_getLast o.agent_ne).symm⟩
    rw [hu, ← List.append_assoc] at ht
    obtain ⟨w, hw⟩ := ht
    rw [← List.append_assoc] at hw
    have hslash : unit '/' = u := (List.append_singleton_inj.1 hw).2
    have hmem : u ∈ o.agentId := by
      rw [hu]
      exact List.mem_append_right _ List.mem_cons_self
    exact o.agent_plain u hmem hslash.symm

/-- No end of the shown form begins as a word does whose first two units are nowhere in it. -/
theorem no_start {a b : UInt16} {w : Str} (hnone : ∀ s ∈ AGENT_REF.tails, s ≠ [] → ¬s.take 2 <+: [a, b]) (hs : s ≠ [])
    (hend : s <:+ AGENT_REF) : ¬s <+: a :: b :: w ∧ ¬a :: b :: w <+: s := by
  have hno := hnone s ((List.mem_tails _ _).2 hend) hs
  refine ⟨fun h => hno (h.take 2), fun ⟨t, ht⟩ => hno ?_⟩
  rw [← ht]
  exact List.prefix_refl _

theorem apart_scope (hagent : ¬js "artifact:" <:+ o.agentId) : Apart (scopeOf o) AGENT_REF where
  after s hs hend := by
    refine ⟨no_end hagent hs (by rwa [← scope_end]), fun ⟨t, ht⟩ => ?_⟩
    obtain ⟨w, hw⟩ := hend
    have hsingle := single_scope o
    rw [← hw, ← ht, AGENT_eq] at hsingle
    refine not_single (unit '/' :: w ++ js "artifact:") t ?_
    simpa using hsingle
  before s hs hend := by
    have hscope : scopeOf o = unit 't' :: unit '/' :: (o.tenantId ++ js "/" ++ o.agentId ++ js "/") := by
      have hjs : js "t/" = [unit 't', unit '/'] := by decide
      rw [scopeOf, hjs]
      rfl
    have hnone : ∀ s ∈ AGENT_REF.tails, s ≠ [] → ¬s.take 2 <+: [unit 't', unit '/'] := by decide
    rw [hscope]
    exact no_start hnone hs hend

theorem apart_raw (hagent : ¬js "artifact:" <:+ o.agentId) (hne : bucket ≠ []) (hplain : ∀ u ∈ bucket, u ≠ unit '/') :
    Apart (rawRef o bucket) AGENT_REF where
  after s hs hend := by
    refine ⟨no_end hagent hs (x := js "r2://" ++ bucket ++ js "/" ++ (js "t/" ++ o.tenantId)) ?_, fun ⟨t, ht⟩ => ?_⟩
    · rw [rawRef, scope_end] at hend
      simpa only [List.append_assoc] using hend
    · -- After the scheme a reference has no two slashes in a row, and the shown form's are further in.
      obtain ⟨w, hw⟩ := hend
      have hsingle : Single ((rawRef o bucket).drop 4) := by
        have hdrop : (rawRef o bucket).drop 4 = unit '/' :: bucket ++ (unit '/' :: scopeOf o) := by
          have hjs : js "r2://" = [unit 'r', unit '2', unit ':', unit '/', unit '/'] := by decide
          rw [rawRef, hjs, slash_js, List.append_assoc, List.append_assoc]
          rfl
        rw [hdrop]
        exact single_segment hne hplain (single_scope o)
      have hlong : 4 ≤ (w ++ js "artifact:").length := by
        have : (js "artifact:").length = 9 := by decide
        rw [List.length_append]
        omega
      have hword : rawRef o bucket = w ++ js "artifact:" ++ (unit '/' :: unit '/' :: t) := by
        rw [← hw, ← ht, AGENT_eq]
        simp only [List.append_assoc, List.cons_append, List.nil_append]
      rw [hword, List.drop_append_of_le_length hlong] at hsingle
      exact not_single _ t hsingle
  before s hs hend := by
    have hraw : rawRef o bucket = unit 'r' :: unit '2' :: (js "://" ++ bucket ++ js "/" ++ scopeOf o) := by
      have hjs : js "r2://" = unit 'r' :: unit '2' :: js "://" := by decide
      rw [rawRef, hjs]
      rfl
    have hnone : ∀ s ∈ AGENT_REF.tails, s ≠ [] → ¬s.take 2 <+: [unit 'r', unit '2'] := by decide
    rw [hraw]
    exact no_start hnone hs hend

end Words

/-! ## Keys -/

section Keys

variable {o o' : RefOwner} {ref key path path' r : Str}

theorem keyForRef_agent (o : RefOwner) (path : Str) :
    keyForRef (AGENT_REF ++ path) o = if plainPath path then some (scopeOf o ++ path) else none := by
  rw [keyForRef, if_pos (startsWith_iff.2 ⟨path, rfl⟩)]
  simp only [List.drop_left]

/-- The key a reference names: the shown form's under the caller's scope, or a raw reference's that is in it. -/
theorem keyForRef_some (h : keyForRef ref o = some key) :
    ∃ path, plainPath path = true ∧ key = scopeOf o ++ path ∧ (ref = AGENT_REF ++ path ∨ rawKey ref = some key) := by
  rw [keyForRef] at h
  split at h
  · rename_i hshown
    obtain ⟨path, rfl⟩ := startsWith_iff.1 hshown
    simp only [List.drop_left] at h
    split at h
    · rename_i hplain
      cases h
      exact ⟨path, hplain, rfl, .inl rfl⟩
    · cases h
  · split at h
    · rename_i key' hraw
      split at h
      · rename_i hin
        cases h
        rw [Bool.and_eq_true] at hin
        obtain ⟨path, rfl⟩ := startsWith_iff.1 hin.1
        rw [List.drop_left] at hin
        exact ⟨path, hin.2, rfl, .inr hraw⟩
      · cases h
    · cases h

theorem toAgentRef_some (h : toAgentRef ref o = some r) :
    ∃ path, plainPath path = true ∧ withoutRaw ref = scopeOf o ++ path ∧ r = AGENT_REF ++ path := by
  rw [toAgentRef] at h
  split at h
  · rename_i hin
    obtain ⟨path, hpath⟩ := startsWith_iff.1 hin
    simp only [hpath, List.drop_left] at h
    split at h
    · rename_i hplain
      cases h
      exact ⟨path, hplain, hpath, rfl⟩
    · cases h
  · cases h

/-- A key is not a raw reference, and is shown as its path. -/
theorem toAgentRef_key (h : plainPath path = true) : toAgentRef (scopeOf o ++ path) o = some (AGENT_REF ++ path) := by
  have hraw : rawKey (scopeOf o ++ path) = none := by
    rw [rawKey]
    refine if_neg fun hstarts => ?_
    obtain ⟨rest, hrest⟩ := startsWith_iff.1 hstarts
    have ht : js "t/" = unit 't' :: [unit '/'] := by decide
    have hr : js "r2://" = unit 'r' :: js "2://" := by decide
    rw [scopeOf, ht, hr] at hrest
    have hunit : unit 't' ≠ unit 'r' := by decide
    exact hunit (List.cons.inj hrest).1
  have hkey : withoutRaw (scopeOf o ++ path) = scopeOf o ++ path := by
    rw [withoutRaw, hraw]
    rfl
  rw [toAgentRef]
  simp only [hkey]
  rw [if_pos (startsWith_iff.2 ⟨path, rfl⟩), List.drop_left, if_pos h]

/-- No key is in the scopes of two owners. -/
theorem scopeOf_inj (h : scopeOf o ++ path = scopeOf o' ++ path') : o.tenantId = o'.tenantId ∧ o.agentId = o'.agentId := by
  have hscope : ∀ (o : RefOwner) path,
      scopeOf o ++ path = js "t/" ++ (o.tenantId ++ unit '/' :: (o.agentId ++ unit '/' :: path)) := by
    intro o path
    simp only [scopeOf, slash_js, List.append_assoc, List.cons_append, List.nil_append]
  rw [hscope, hscope] at h
  have hslash : ∀ {id : Str}, (∀ u ∈ id, u ≠ unit '/') → unit '/' ∉ id := fun hid hmem => hid _ hmem rfl
  obtain ⟨htenant, hrest⟩ := cut_at (hslash o.tenant_plain) (hslash o'.tenant_plain) (List.append_cancel_left h)
  exact ⟨htenant, (cut_at (hslash o.agent_plain) (hslash o'.agent_plain) hrest).1⟩

theorem plainPath_single (h : plainPath path = true) (x y : Str) : path ≠ x ++ unit '/' :: unit '/' :: y := by
  rintro rfl
  rw [plainPath, Bool.and_eq_true, Document.splitOn_append] at h
  have hmove : (splitOn (unit '/') x ++ splitOn (unit '/') (unit '/' :: y)).any isMove = true := by
    refine List.any_eq_true.2 ⟨[], List.mem_append_right _ ?_, rfl⟩
    rw [splitOn, if_pos rfl]
    exact List.mem_cons_self
  rw [hmove] at h
  exact absurd h.2 (by decide)

end Keys

/-! ## Texts masked -/

/-- A text rewritten in its references alone: the raw ones, and the bare keys where a path can start. -/
def RefsOnly (o : RefOwner) (text shown : Str) : Prop :=
  ∃ ts : List (Twice UInt16), text = ts.flatMap Twice.read ∧ shown = ts.flatMap (Twice.shown AGENT_REF) ∧
    (∀ old, Twice.first old ∈ ts → ∃ bucket, bucket ≠ [] ∧ bucket.all bucketUnit = true ∧ old = rawRef o bucket) ∧
    ∀ before old after, ts = before ++ Twice.second old :: after →
      old = scopeOf o ∧ PathStart (before.flatMap Twice.read)

section Masked

variable {o : RefOwner} {text : Str}

theorem raw_self (start : Bool) (h : ¬HasRaw o text) : shown AGENT_REF (scan (raw o) 0 start text) = text := by
  refine shown_self (raw_lawful o) fun ps₁ old ps₂ hps => h ?_
  have hscan := scanned (raw_lawful o) start text
  obtain ⟨start', ps₀, m, -, hold, -, hfound⟩ := hscan.found_at (raw_lawful o) hps
  obtain ⟨bucket, hne, hall, rfl, -⟩ := raw_some hfound
  refine ⟨read ps₁, bucket, read ps₂, hne, hall, ?_⟩
  rw [← hscan.read, hps, read_append, List.append_assoc, show rawRef o bucket = old from hold]
  rfl

theorem bare_self (h : ¬HasBare o text) : shown AGENT_REF (scan (bare o) 0 true text) = text := by
  refine shown_self (bare_lawful o) fun ps₁ old ps₂ hps => h ?_
  have hscan := scanned (bare_lawful o) true text
  obtain ⟨start', ps₀, m, hbefore, hold, hstart, hfound⟩ := hscan.found_at (bare_lawful o) hps
  obtain ⟨htaken, hkept, -⟩ := bare_some hfound
  refine ⟨read ps₁, read ps₂, ?_, ?_⟩
  · rw [← hscan.read, hps, read_append, List.append_assoc, ← htaken, hold]
    rfl
  · rcases hkept with ⟨htrue, hnil⟩ | ⟨u, hu, hkept⟩
    · rw [hnil, (hstart htrue).1] at hbefore
      rw [hbefore]
      exact fun u hu => nomatch hu
    · rw [hkept] at hbefore
      rw [hbefore, read_append]
      intro v hv
      rw [show read ([u].map Piece.keep) = [u] from rfl, List.getLast?_append] at hv
      cases hv
      exact hu

/-- A text with no reference in it stays. -/
theorem maskRawRefs_self (hraw : ¬HasRaw o text) (hbare : ¬HasBare o text) : maskRawRefs text o = text := by
  rw [maskRawRefs, replaceAll, replaceAll, raw_self true hraw, bare_self hbare]

theorem scope_units (o : RefOwner) : ∃ w, scopeOf o = unit 't' :: unit '/' :: w := by
  have ht : js "t/" = [unit 't', unit '/'] := by decide
  exact ⟨o.tenantId ++ js "/" ++ o.agentId ++ js "/", by rw [scopeOf, ht]; rfl⟩

theorem raw_units (o : RefOwner) (bucket : Str) : ∃ w, rawRef o bucket = unit 'r' :: unit '2' :: w := by
  have hr : js "r2://" = unit 'r' :: unit '2' :: js "://" := by decide
  exact ⟨js "://" ++ bucket ++ js "/" ++ scopeOf o, by rw [rawRef, hr]; rfl⟩

theorem raw_gone (hagent : ¬js "artifact:" <:+ o.agentId) (text : Str) : ¬HasRaw o (replaceAll (raw o) AGENT_REF text) := by
  rintro ⟨before, bucket, after, hne, hall, htext⟩
  obtain ⟨ps₁, ps₃, hps, -, -⟩ := keeps_of_shown (apart_raw hagent hne (bucket_plain hall)) htext (rawRef_ne o bucket)
  obtain ⟨w, hw⟩ := raw_units o bucket
  rw [hw] at hps
  obtain ⟨start', -, hnone⟩ := (scanned (raw_lawful o) true text).word_none (raw_lawful o) hps
  rw [← hw, raw_of hne hall] at hnone
  exact absurd hnone (Option.some_ne_none _)

/-- The second rewriting makes no raw reference. -/
theorem raw_none (hagent : ¬js "artifact:" <:+ o.agentId) (h : ¬HasRaw o text) :
    ¬HasRaw o (replaceAll (bare o) AGENT_REF text) := by
  rintro ⟨before, bucket, after, hne, hall, htext⟩
  obtain ⟨ps₁, ps₃, hps, -, -⟩ := keeps_of_shown (apart_raw hagent hne (bucket_plain hall)) htext (rawRef_ne o bucket)
  refine h ⟨read ps₁, bucket, read ps₃, hne, hall, ?_⟩
  rw [← (scanned (bare_lawful o) true text).read, hps, read_append, read_append, read_keeps]

/-- The shown form ends in a slash, and so does a scope: no path starts after either. -/
theorem bare_gone (hagent : ¬js "artifact:" <:+ o.agentId) (text : Str) :
    ¬HasBare o (replaceAll (bare o) AGENT_REF text) := by
  rintro ⟨before, after, htext, hstart⟩
  obtain ⟨ps₁, ps₃, hps, hbefore, -⟩ := keeps_of_shown (apart_scope hagent) htext (scopeOf_ne o)
  have hscan := scanned (bare_lawful o) true text
  obtain ⟨w, hw⟩ := scope_units o
  rcases List.eq_nil_or_concat ps₁ with rfl | ⟨init, p, rfl⟩
  · rw [hw] at hps
    obtain ⟨start', htrue, hnone⟩ := hscan.word_none (bare_lawful o) hps
    rw [← hw, htrue rfl, bare_start ⟨read ps₃, rfl⟩] at hnone
    exact absurd hnone (Option.some_ne_none _)
  · rw [← hbefore, List.concat_eq_append, shown_append] at hstart
    cases p with
    | keep u =>
      have hu : pathUnit u = false := by
        refine hstart u ?_
        rw [show shown AGENT_REF [Piece.keep u] = [u] from rfl, List.getLast?_append]
        rfl
      have hword : scan (bare o) 0 true text = init ++ (u :: unit 't' :: unit '/' :: w).map Piece.keep ++ ps₃ := by
        rw [hps, hw, List.concat_eq_append, List.append_assoc, List.append_assoc, List.append_assoc]
        rfl
      obtain ⟨start', -, hnone⟩ := hscan.word_none (bare_lawful o) hword
      rw [← hw, List.cons_append] at hnone
      exact absurd hnone (bare_after hu ⟨read ps₃, rfl⟩)
    | put old =>
      have hslash := hstart (unit '/') (by
        rw [show shown AGENT_REF [Piece.put old] = AGENT_REF from List.append_nil _, List.getLast?_append]
        rfl)
      revert hslash
      decide

/-- The last piece kept before a match of the second rewriting was kept by the first. -/
theorem last_kept {before : List (Twice UInt16)} {ps₀ : List (Piece UInt16)} {u : UInt16} (hu : pathUnit u = false)
    (h : before.flatMap (Twice.two AGENT_REF) = ps₀ ++ [Piece.keep u]) : (before.flatMap Twice.read).getLast? = some u := by
  rcases List.eq_nil_or_concat before with rfl | ⟨init, t, rfl⟩
  · exact absurd h (by simp)
  · rw [List.concat_eq_append, List.flatMap_append, List.flatMap_singleton] at h ⊢
    have hlast := congrArg List.getLast? h
    rw [List.getLast?_append, List.getLast?_append] at hlast
    cases t with
    | keep v =>
      cases Option.some.inj hlast
      rw [List.getLast?_append]
      rfl
    | first old =>
      have hv : unit '/' = u := Piece.keep.inj (Option.some.inj hlast)
      rw [← hv] at hu
      exact absurd hu (by decide)
    | second old => cases Option.some.inj hlast

/-- A text masked is its own with the references shown. -/
theorem refs_only (hagent : ¬js "artifact:" <:+ o.agentId) (text : Str) : RefsOnly o text (maskRawRefs text o) := by
  have hraw := scanned (raw_lawful o) true text
  have hbare := scanned (bare_lawful o) true (replaceAll (raw o) AGENT_REF text)
  have hall : ∀ p ∈ scan (bare o) 0 true (replaceAll (raw o) AGENT_REF text), p.read = p.shown (scopeOf o) := by
    intro p hp
    cases p with
    | keep a => rfl
    | put old =>
      obtain ⟨ps₁, ps₂, hps⟩ := List.append_of_mem hp
      obtain ⟨start', ps₀, m, -, hold, -, hfound⟩ := hbare.found_at (bare_lawful o) hps
      exact hold.symm.trans (bare_some hfound).1
  obtain ⟨ts, hone, htwo⟩ := merged (apart_scope hagent) (scopeOf_ne o) hall hbare.read.symm
  refine ⟨ts, ?_, ?_, fun old hold => ?_, fun before old after hts => ?_⟩
  · rw [← read_one, ← hone, hraw.read]
  · rw [← shown_two, ← htwo]
    rfl
  · have hput : Piece.put old ∈ scan (raw o) 0 true text := by
      rw [hone]
      exact List.mem_flatMap.2 ⟨_, hold, List.mem_cons_self⟩
    obtain ⟨ps₁, ps₂, hps⟩ := List.append_of_mem hput
    obtain ⟨start', ps₀, m, -, htaken, -, hfound⟩ := hraw.found_at (raw_lawful o) hps
    obtain ⟨bucket, hne, hbucket, rfl, -⟩ := raw_some hfound
    exact ⟨bucket, hne, hbucket, htaken.symm⟩
  · have hps : scan (bare o) 0 true (replaceAll (raw o) AGENT_REF text) =
        before.flatMap (Twice.two AGENT_REF) ++ Piece.put old :: after.flatMap (Twice.two AGENT_REF) := by
      rw [htwo, hts, List.flatMap_append, List.flatMap_cons]
      rfl
    obtain ⟨start', ps₀, m, hbefore, hold, hstart, hfound⟩ := hbare.found_at (bare_lawful o) hps
    obtain ⟨htaken, hkept, -⟩ := bare_some hfound
    refine ⟨hold.symm.trans htaken, ?_⟩
    rcases hkept with ⟨htrue, hnil⟩ | ⟨u, hu, hkept⟩
    · rw [hnil, (hstart htrue).1] at hbefore
      have hempty : before = [] := by
        rcases before with - | ⟨t, rest⟩
        · rfl
        · rw [List.flatMap_cons] at hbefore
          have ht := (List.append_eq_nil_iff.1 hbefore).1
          cases t <;> cases ht
      rw [hempty]
      exact fun u hu => nomatch hu
    · rw [hkept] at hbefore
      have hlast := last_kept hu hbefore
      intro v hv
      rw [hlast] at hv
      cases hv
      exact hu

end Masked

/-! ## The three together -/

/-- A raw reference whose bucket has a bucket's units, and whose shown form holds no bare key, is masked to that form. -/
theorem raw_masked {o : RefOwner} {ref key : Str} (hraw : (rawKey ref).isSome = true) (hkey : keyForRef ref o = some key)
    (hbucket : (bucketOf ref).all bucketUnit = true)
    (hbare : ∀ path, key = scopeOf o ++ path → ¬HasBare o (AGENT_REF ++ path)) :
    ∃ path, maskRawRefs ref o = AGENT_REF ++ path ∧ keyForRef (maskRawRefs ref o) o = some key := by
  obtain ⟨path, hplain, rfl, hform⟩ := keyForRef_some hkey
  have hkey' : rawKey ref = some (scopeOf o ++ path) := by
    refine hform.resolve_left ?_
    rintro rfl
    have hnone : rawKey (AGENT_REF ++ path) = none := by
      rw [rawKey]
      refine if_neg fun hstarts => ?_
      obtain ⟨rest, hrest⟩ := startsWith_iff.1 hstarts
      have ha : AGENT_REF = unit 'a' :: js "rtifact://" := by decide
      have hr : js "r2://" = unit 'r' :: js "2://" := by decide
      rw [ha, hr] at hrest
      have hunit : unit 'a' ≠ unit 'r' := by decide
      exact hunit (List.cons.inj hrest).1
    rw [hnone] at hraw
    cases hraw
  obtain ⟨hne, -, href⟩ := rawKey_some hkey'
  rw [← List.append_assoc] at href
  change ref = rawRef o (bucketOf ref) ++ path at href
  have hone : replaceAll (raw o) AGENT_REF ref = AGENT_REF ++ path := by
    have hsome : raw o true ([] ++ rawRef o (bucketOf ref) ++ path) = some ⟨[], rawRef o (bucketOf ref)⟩ :=
      raw_of hne hbucket
    have hscan := scan_found (raw_lawful o) (m := ⟨[], rawRef o (bucketOf ref)⟩) hsome
    rw [replaceAll, href]
    refine (congrArg (shown AGENT_REF) hscan).trans (congrArg (AGENT_REF ++ ·) (raw_self false ?_))
    rintro ⟨before, bucket, after, -, -, hpath⟩
    obtain ⟨w, hw⟩ : ∃ w, rawRef o bucket = js "r2:" ++ unit '/' :: unit '/' :: w := by
      have hr : js "r2://" = js "r2:" ++ [unit '/', unit '/'] := by decide
      refine ⟨bucket ++ js "/" ++ scopeOf o, ?_⟩
      rw [rawRef, hr]
      simp only [List.append_assoc, List.cons_append, List.nil_append]
    refine plainPath_single hplain (before ++ js "r2:") (w ++ after) ?_
    rw [hpath, hw]
    simp only [List.append_assoc, List.cons_append]
  refine ⟨path, ?_, ?_⟩
  · rw [maskRawRefs, hone, replaceAll, bare_self (hbare path rfl)]
  · rw [maskRawRefs, hone, replaceAll, bare_self (hbare path rfl), keyForRef_agent, if_pos hplain]

/-- What the references agree on: a key resolved is in the caller's scope and in no other's, a shown reference and its key
give each other, a raw reference is masked to the form that names the same key, and masking leaves no reference, changes
nothing else and adds nothing when repeated. -/
theorem refs_masked (o : RefOwner) :
    (∀ ref key, keyForRef ref o = some key → ∃ path, plainPath path = true ∧ key = scopeOf o ++ path) ∧
      (∀ (o' : RefOwner) ref ref' key, keyForRef ref o = some key → keyForRef ref' o' = some key →
        o.tenantId = o'.tenantId ∧ o.agentId = o'.agentId) ∧
      (∀ ref r, toAgentRef ref o = some r → keyForRef r o = some (withoutRaw ref)) ∧
      (∀ path key, keyForRef (AGENT_REF ++ path) o = some key → toAgentRef key o = some (AGENT_REF ++ path)) ∧
      (∀ ref key, (rawKey ref).isSome = true → keyForRef ref o = some key → (bucketOf ref).all bucketUnit = true →
        (∀ path, key = scopeOf o ++ path → ¬HasBare o (AGENT_REF ++ path)) →
        ∃ path, maskRawRefs ref o = AGENT_REF ++ path ∧ keyForRef (maskRawRefs ref o) o = some key) ∧
      (¬js "artifact:" <:+ o.agentId → ∀ text,
        ¬HasRaw o (maskRawRefs text o) ∧ ¬HasBare o (maskRawRefs text o) ∧ RefsOnly o text (maskRawRefs text o) ∧
          maskRawRefs (maskRawRefs text o) o = maskRawRefs text o) := by
  refine ⟨?_, ?_, ?_, ?_, fun ref key => raw_masked, fun hagent text => ?_⟩
  · intro ref key hkey
    obtain ⟨path, hplain, rfl, -⟩ := keyForRef_some hkey
    exact ⟨path, hplain, rfl⟩
  · intro o' ref ref' key hkey hkey'
    obtain ⟨path, -, rfl, -⟩ := keyForRef_some hkey
    obtain ⟨path', -, hsame, -⟩ := keyForRef_some hkey'
    exact scopeOf_inj hsame
  · intro ref r hr
    obtain ⟨path, hplain, hkey, rfl⟩ := toAgentRef_some hr
    rw [keyForRef_agent, if_pos hplain, hkey]
  · intro path key hkey
    rw [keyForRef_agent] at hkey
    split at hkey
    · rename_i hplain
      cases hkey
      exact toAgentRef_key hplain
    · cases hkey
  · have hraw := raw_none hagent (raw_gone hagent text)
    have hbare := bare_gone hagent (replaceAll (raw o) AGENT_REF text)
    exact ⟨hraw, hbare, refs_only hagent text, maskRawRefs_self hraw hbare⟩

/-- An owner by its ids. -/
def ownerOf (tenantId agentId : String) (hne : js tenantId ≠ [] ∧ js agentId ≠ [])
    (hplain : ((js tenantId).all (· != unit '/') && (js agentId).all (· != unit '/')) = true) : RefOwner where
  tenantId := js tenantId
  agentId := js agentId
  tenant_ne := hne.1
  agent_ne := hne.2
  tenant_plain u hu := bne_iff_ne.1 (List.all_eq_true.1 (Bool.and_eq_true _ _ ▸ hplain).1 u hu)
  agent_plain u hu := bne_iff_ne.1 (List.all_eq_true.1 (Bool.and_eq_true _ _ ▸ hplain).2 u hu)

def aOwner : RefOwner := ownerOf "t1" "a1" (by decide) (by decide)

/-- An agent whose id ends as the shown form begins. -/
def lookalike : RefOwner := ownerOf "t1" "artifact:" (by decide) (by decide)

theorem lookalike_masked :
    maskRawRefs (js "r2://b/t/t1/r2://b/t/t1/artifact:/x") lookalike = js "r2://b/t/t1/artifact://x" ∧
      maskRawRefs (js "r2://b/t/t1/artifact://x") lookalike = js "artifact:///x" := by
  constructor <;> decide

/-- A raw reference under a bucket's name of other units stays; one whose path quotes a bare key is masked to a form that
names nothing; and for the look-alike a raw reference is left, to be masked when it is repeated. -/
theorem references_left :
    (keyForRef (js "r2://my bucket/t/t1/a1/x") aOwner = some (js "t/t1/a1/x") ∧
        maskRawRefs (js "r2://my bucket/t/t1/a1/x") aOwner = js "r2://my bucket/t/t1/a1/x") ∧
      (keyForRef (js "r2://b/t/t1/a1/x t/t1/a1/y") aOwner = some (js "t/t1/a1/x t/t1/a1/y") ∧
        keyForRef (maskRawRefs (js "r2://b/t/t1/a1/x t/t1/a1/y") aOwner) aOwner = none) ∧
      HasRaw lookalike (maskRawRefs (js "r2://b/t/t1/r2://b/t/t1/artifact:/x") lookalike) ∧
      maskRawRefs (maskRawRefs (js "r2://b/t/t1/r2://b/t/t1/artifact:/x") lookalike) lookalike ≠
        maskRawRefs (js "r2://b/t/t1/r2://b/t/t1/artifact:/x") lookalike := by
  refine ⟨⟨?_, ?_⟩, ⟨?_, ?_⟩, ?_, ?_⟩
  · decide
  · decide
  · decide
  · decide
  · rw [lookalike_masked.1]
    exact ⟨[], js "b", js "/x", by decide, by decide, by decide⟩
  · rw [lookalike_masked.1, lookalike_masked.2]
    decide

end Antiproton.MaskRefs
