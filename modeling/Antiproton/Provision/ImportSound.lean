import Antiproton.Provision.ImportFiles

/-!
# Antiproton.Provision.ImportSound

The loop of an import's check: what it accepts is its bytes, and the refusals it lists are all of them.

* `fileChecked_next`: a round refuses its file or takes it.
* `filesChecked_next`: a run that is not ended takes, in order, the files it does not refuse.
* `filesChecked_passes`: files that pass alone and are of different paths pass together.
* `import_checked`: what `importRequest` accepts, what is decoded, and that `importCheck` names every refusal at once.
-/

namespace Antiproton.Provision

open Js

variable {env : Env}

/-! ## One file -/

/-- A file that passes every check of its own, and what it becomes. -/
structure Passes (env : Env) (sent : Json) (b64 : Str) (file : ImportFile) : Prop where
  fields : ∃ fields, sent = .obj fields ∧ unknownField IMPORT_FILE_FIELDS fields = none
  credential : credentialPath env sent = none
  path : importPath env (sent.field? (js "path")) = .path file.path
  sha : ∃ sha, sent.field? (js "sha256") = some (.str sha) ∧ sha256Hex (env.toLowerCase sha) = true ∧
    env.toLowerCase sha = file.sha256
  content : sent.field? (js "contentBase64") = some (.str b64)
  padded : base64 b64 = true
  small : sizeOf b64 ≤ IMPORT_FILE_MAX_BYTES
  hash : env.sha256 (decoded b64) = file.sha256
  text : utf8Text (decoded b64) = some file.text
  plain : env.secretShape file.text = none
  bytes : (decoded b64).length = file.bytes

section File

variable {at_ path sha b64 : Str} {f : Json} {file : ImportFile}

theorem pathOf_iff : pathOf env at_ f = .ok path ↔ (∃ fields, f = .obj fields ∧ unknownField IMPORT_FILE_FIELDS fields = none) ∧
    credentialPath env f = none ∧ importPath env (f.field? (js "path")) = .path path := by
  unfold pathOf
  cases f with
  | obj fields =>
    dsimp only
    cases hknown : unknownField IMPORT_FILE_FIELDS fields with
    | some extra => simp [hknown]
    | none =>
      cases hcredential : credentialPath env (.obj fields) with
      | some shape => simp
      | none => cases hpath : importPath env ((Json.obj fields).field? (js "path")) <;> simp [hknown]
  | _ => simp

theorem encodedOf_iff : encodedOf env at_ f = .ok (sha, b64) ↔ f.field? (js "sha256") = some (.str sha) ∧
    sha256Hex (env.toLowerCase sha) = true ∧ f.field? (js "contentBase64") = some (.str b64) ∧ base64 b64 = true ∧
    sizeOf b64 ≤ IMPORT_FILE_MAX_BYTES := by
  constructor
  · intro h
    unfold encodedOf at h
    split at h
    · rename_i sent hsha
      split at h
      · cases h
      rename_i hhex
      split at h
      · rename_i text hb64
        split at h
        · cases h
        rename_i hpadded
        split at h
        · cases h
        rename_i hsmall
        cases h
        exact ⟨hsha, by simpa using hhex, hb64, by simpa using hpadded, Nat.le_of_not_lt hsmall⟩
      · cases h
    · cases h
  · rintro ⟨hsha, hhex, hb64, hpadded, hsmall⟩
    rw [encodedOf, hsha]
    dsimp only
    rw [hhex, hb64]
    dsimp only
    rw [hpadded, if_neg (Nat.not_lt.2 hsmall)]
    rfl

theorem fileOf_iff : fileOf env at_ path sha b64 = .ok file ↔ env.sha256 (decoded b64) = env.toLowerCase sha ∧
    env.sha256 (decoded b64) = file.sha256 ∧ utf8Text (decoded b64) = some file.text ∧ env.secretShape file.text = none ∧
    (decoded b64).length = file.bytes ∧ path = file.path := by
  constructor
  · intro h
    unfold fileOf at h
    dsimp only at h
    split at h
    · cases h
    rename_i hhash
    split at h
    · cases h
    · rename_i text htext
      split at h
      · cases h
      · rename_i hplain
        cases h
        exact ⟨Decidable.not_not.1 hhash, rfl, htext, hplain, rfl, rfl⟩
  · rintro ⟨hhash, hsha, htext, hplain, hbytes, hpath⟩
    rw [fileOf, if_neg (not_not_intro hhash), htext]
    dsimp only
    rw [hplain, hsha, hbytes, hpath]

/-- The checks of a file that passes, at any place. -/
theorem Passes.checks (h : Passes env f b64 file) (at_ : Str) : ∃ sha, pathOf env at_ f = .ok file.path ∧
    encodedOf env at_ f = .ok (sha, b64) ∧ fileOf env at_ file.path sha b64 = .ok file := by
  obtain ⟨sha, hsha, hhex, hlower⟩ := h.sha
  refine ⟨sha, pathOf_iff.2 ⟨h.fields, h.credential, h.path⟩, encodedOf_iff.2 ⟨hsha, hhex, h.content, h.padded, h.small⟩,
    fileOf_iff.2 ⟨h.hash.trans hlower.symm, h.hash, h.text, h.plain, h.bytes, rfl⟩⟩

theorem passes_of_checks (hpath : pathOf env at_ f = .ok path) (hencoded : encodedOf env at_ f = .ok (sha, b64))
    (hfile : fileOf env at_ path sha b64 = .ok file) : Passes env f b64 file ∧ path = file.path := by
  obtain ⟨hfields, hcredential, hkey⟩ := pathOf_iff.1 hpath
  obtain ⟨hsha, hhex, hcontent, hpadded, hsmall⟩ := encodedOf_iff.1 hencoded
  obtain ⟨hlower, hhash, htext, hplain, hbytes, rfl⟩ := fileOf_iff.1 hfile
  exact ⟨⟨hfields, hcredential, hkey, ⟨sha, hsha, hhex, hlower.symm.trans hhash⟩, hcontent, hpadded, hsmall, hhash, htext,
    hplain, hbytes⟩, rfl⟩

/-- The size known from the length is the file's. -/
theorem Passes.sizeOf_eq (h : Passes env f b64 file) : sizeOf b64 = file.bytes := by
  obtain ⟨-, -, hlength⟩ := decoded_length h.padded
  exact hlength.symm.trans h.bytes

end File

/-! ## A round -/

/-- What a file that passes leaves. -/
def Scan.take (b64 : Str) (file : ImportFile) (s : Scan) : Scan :=
  { s with
    files := s.files ++ [file]
    seen := s.seen ++ [file.path]
    sum := s.sum + sizeOf b64
    decodes := s.decodes ++ [b64] }

/-- What a file that is refused leaves: it may have been held, counted and decoded. -/
structure Refused (i : Nat) (s s' : Scan) : Prop where
  files : s'.files = s.files
  rejected : ∃ r, s'.rejected = s.rejected ++ [r] ∧ r.rejection.index = i
  seen : ∀ path ∈ s.seen, path ∈ s'.seen
  sum : s.sum ≤ s'.sum

section Round

variable {i : Nat} {f : Json} {s s' : Scan} {b64 : Str} {file : ImportFile} {x : Option ImportFail}

theorem fileChecked_next (h : fileChecked env i f s = (none, s')) :
    Refused i s s' ∨ ∃ b64 file, Passes env f b64 file ∧ file.path ∉ s.seen ∧
      s.sum + sizeOf b64 ≤ IMPORT_TOTAL_MAX_BYTES ∧ s' = s.take b64 file := by
  unfold fileChecked at h
  split at h
  · cases h
    exact .inl ⟨rfl, ⟨_, rfl, rfl⟩, fun _ hp => hp, le_rfl⟩
  rename_i path hpath
  split at h
  · cases h
    exact .inl ⟨rfl, ⟨_, rfl, rfl⟩, fun _ hp => hp, le_rfl⟩
  rename_i hseen
  dsimp only at h
  split at h
  · cases h
    exact .inl ⟨rfl, ⟨_, rfl, rfl⟩, fun _ hp => List.mem_append_left _ hp, le_rfl⟩
  rename_i sha b64 hencoded
  split at h
  · cases h
  rename_i hsum
  split at h
  · cases h
    exact .inl ⟨rfl, ⟨_, rfl, rfl⟩, fun _ hp => List.mem_append_left _ hp, Nat.le_add_right _ _⟩
  · rename_i file hfile
    obtain ⟨hpasses, rfl⟩ := passes_of_checks hpath hencoded hfile
    cases h
    exact .inr ⟨b64, file, hpasses, by simpa using hseen, Nat.le_of_not_lt hsum, rfl⟩

theorem fileChecked_passes (h : Passes env f b64 file) (hseen : file.path ∉ s.seen)
    (hsum : s.sum + sizeOf b64 ≤ IMPORT_TOTAL_MAX_BYTES) : fileChecked env i f s = (none, s.take b64 file) := by
  obtain ⟨sha, hpath, hencoded, hfile⟩ := h.checks (place i)
  have hnew : ¬s.seen.contains file.path = true := by simpa using hseen
  rw [fileChecked, hpath]
  dsimp only
  rw [if_neg hnew, hencoded]
  dsimp only
  rw [if_neg (Nat.not_lt.2 hsum), hfile]
  rfl

/-- What is decoded: no file of more than its bound, and no more than the bound together. -/
structure Within (decodes : List Str) (sum : Nat) : Prop where
  each : ∀ b64 ∈ decodes, sizeOf b64 ≤ IMPORT_FILE_MAX_BYTES
  together : (decodes.map sizeOf).sum = sum
  bounded : sum ≤ IMPORT_TOTAL_MAX_BYTES

theorem fileChecked_within (h : fileChecked env i f s = (x, s')) (hs : Within s.decodes s.sum) :
    (x = none → Within s'.decodes s'.sum) ∧ ∃ sum, Within s'.decodes sum := by
  have hfrom {s' : Scan} (hw : Within s'.decodes s'.sum) :
    (x = none → Within s'.decodes s'.sum) ∧ ∃ sum, Within s'.decodes sum := ⟨fun _ => hw, s'.sum, hw⟩
  unfold fileChecked at h
  split at h
  · cases h
    exact hfrom hs
  split at h
  · cases h
    exact hfrom hs
  dsimp only at h
  split at h
  · cases h
    exact hfrom hs
  rename_i sha b64 hencoded
  obtain ⟨-, -, -, -, hsmall⟩ := encodedOf_iff.1 hencoded
  split at h
  · cases h
    exact ⟨fun hnone => absurd hnone (Option.some_ne_none _), s.sum, hs⟩
  rename_i hsum
  have hnext : Within (s.decodes ++ [b64]) (s.sum + sizeOf b64) := by
    refine ⟨fun t ht => ?_, ?_, Nat.le_of_not_lt hsum⟩
    · rcases List.mem_append.1 ht with ht | ht
      · exact hs.each t ht
      · rw [List.mem_singleton.1 ht]
        exact hsmall
    · rw [List.map_append, List.sum_append, hs.together, List.map_singleton, List.sum_singleton]
  split at h
  · cases h
    exact hfrom hnext
  · cases h
    exact hfrom hnext

end Round

/-! ## A run -/

/-- The files but those listed, by their places, the first of them at `i`. -/
def without (i : Nat) (listed : List Nat) (list : List Json) : List Json :=
  ((list.zipIdx i).filter fun f => !listed.contains f.2).map (·.1)

section Run

variable {i : Nat} {listed : List Nat} {f : Json} {list rest : List Json} {s s' : Scan} {x : Option ImportFail}

theorem without_listed (h : i ∈ listed) : without i listed (f :: rest) = without (i + 1) listed rest := by
  rw [without, List.zipIdx_cons, List.filter_cons_of_neg (by simpa using h)]
  rfl

theorem without_kept (h : i ∉ listed) : without i listed (f :: rest) = f :: without (i + 1) listed rest := by
  rw [without, List.zipIdx_cons, List.filter_cons_of_pos (by simpa using h)]
  rfl

/-- A place before the first is no place of the files. -/
theorem without_before : without (i + 1) (i :: listed) rest = without (i + 1) listed rest := by
  unfold without
  congr 1
  refine List.filter_congr fun f hf => ?_
  have hle := List.le_snd_of_mem_zipIdx hf
  have hne : f.2 ≠ i := by omega
  simp [hne]

/-- A run that was not ended: the files it took, as sent and as they became, and those it refused. -/
structure Taken (env : Env) (i : Nat) (list : List Json) (s s' : Scan) (taken : List (Str × ImportFile))
    (refused : List Rejected) : Prop where
  files : s'.files = s.files ++ taken.map (·.2)
  rejected : s'.rejected = s.rejected ++ refused
  places : ∀ r ∈ refused, i ≤ r.rejection.index
  passes : List.Forall₂ (fun f t => Passes env f t.1 t.2) (without i (refused.map (·.rejection.index)) list) taken
  distinct : (taken.map (·.2.path)).Nodup
  fresh : ∀ t ∈ taken, t.2.path ∉ s.seen
  sum : s.sum + (taken.map fun t => sizeOf t.1).sum ≤ s'.sum
  exact_ : refused = [] → s'.sum = s.sum + (taken.map fun t => sizeOf t.1).sum

theorem filesChecked_next (h : filesChecked env i list s = (none, s')) : ∃ taken refused, Taken env i list s s' taken refused := by
  induction list generalizing i s with
  | nil =>
    cases h
    exact ⟨[], [], by simp, by simp, by simp, .nil, List.nodup_nil, by simp, le_rfl, fun _ => rfl⟩
  | cons f rest ih =>
    rw [filesChecked] at h
    split at h
    · cases h
    rename_i s₁ hround
    obtain ⟨taken, refused, hrun⟩ := ih h
    obtain hrefused | ⟨b64, file, hpasses, hfresh, hsum, rfl⟩ := fileChecked_next hround
    · obtain ⟨r, hr, hindex⟩ := hrefused.rejected
      refine ⟨taken, r :: refused, ?_, ?_, ?_, ?_, hrun.distinct, ?_, ?_, fun hnil => absurd hnil (List.cons_ne_nil _ _)⟩
      · rw [hrun.files, hrefused.files]
      · rw [hrun.rejected, hr, List.append_assoc]
        rfl
      · rintro r' hr'
        obtain rfl | hr' := List.mem_cons.1 hr'
        · exact hindex.ge
        · exact (Nat.le_succ i).trans (hrun.places r' hr')
      · rw [List.map_cons, hindex, without_listed List.mem_cons_self, without_before]
        exact hrun.passes
      · exact fun t ht hseen => hrun.fresh t ht (hrefused.seen _ hseen)
      · exact (Nat.add_le_add_right hrefused.sum _).trans hrun.sum
    · have hplace : i ∉ refused.map (·.rejection.index) := by
        intro hi
        obtain ⟨r, hr, heq⟩ := List.mem_map.1 hi
        have hle := hrun.places r hr
        omega
      refine ⟨(b64, file) :: taken, refused, ?_, hrun.rejected, ?_, ?_, ?_, ?_, ?_, ?_⟩
      · rw [hrun.files]
        simp [Scan.take]
      · exact fun r hr => (Nat.le_succ i).trans (hrun.places r hr)
      · rw [without_kept hplace]
        exact .cons hpasses hrun.passes
      · refine List.nodup_cons.2 ⟨fun hmem => ?_, hrun.distinct⟩
        obtain ⟨t, ht, heq⟩ := List.mem_map.1 hmem
        refine hrun.fresh t ht ?_
        rw [heq]
        exact List.mem_append_right _ (List.mem_singleton_self _)
      · intro t ht hseen
        obtain rfl | ht := List.mem_cons.1 ht
        · exact hfresh hseen
        · exact hrun.fresh t ht (List.mem_append_left _ hseen)
      · rw [List.map_cons, List.sum_cons, ← Nat.add_assoc]
        exact hrun.sum
      · intro hnil
        rw [List.map_cons, List.sum_cons, ← Nat.add_assoc]
        exact hrun.exact_ hnil

/-- Files that pass alone and are of different paths pass together. -/
theorem filesChecked_passes {taken : List (Str × ImportFile)} (h : List.Forall₂ (fun f t => Passes env f t.1 t.2) list taken)
    (hdistinct : (taken.map (·.2.path)).Nodup) (hfresh : ∀ t ∈ taken, t.2.path ∉ s.seen)
    (hsum : s.sum + (taken.map fun t => sizeOf t.1).sum ≤ IMPORT_TOTAL_MAX_BYTES) :
    ∃ s', filesChecked env i list s = (none, s') ∧ s'.files = s.files ++ taken.map (·.2) ∧ s'.rejected = s.rejected ∧
      s'.sum = s.sum + (taken.map fun t => sizeOf t.1).sum := by
  induction h generalizing i s with
  | nil => exact ⟨s, rfl, by simp, rfl, rfl⟩
  | @cons f t list taken hpasses _ ih =>
    obtain ⟨hnew, hdistinct⟩ := List.nodup_cons.1 hdistinct
    rw [List.map_cons, List.sum_cons, ← Nat.add_assoc] at hsum
    have hround : fileChecked env i f s = (none, s.take t.1 t.2) :=
      fileChecked_passes hpasses (hfresh t List.mem_cons_self) (le_trans (Nat.le_add_right _ _) hsum)
    have hlater : ∀ t' ∈ taken, t'.2.path ∉ (s.take t.1 t.2).seen := by
      intro t' ht' hseen
      obtain hseen | hseen := List.mem_append.1 hseen
      · exact hfresh t' (List.mem_cons_of_mem _ ht') hseen
      · refine hnew (List.mem_map.2 ⟨t', ht', List.mem_singleton.1 hseen⟩)
    obtain ⟨s', hrun, hfiles, hrejected, hs⟩ := ih (i := i + 1) hdistinct hlater hsum
    refine ⟨s', ?_, ?_, hrejected, ?_⟩
    · rw [filesChecked, hround]
      exact hrun
    · rw [hfiles]
      simp [Scan.take]
    · rw [hs, List.map_cons, List.sum_cons, ← Nat.add_assoc]
      rfl

theorem filesChecked_within (h : filesChecked env i list s = (x, s')) (hs : Within s.decodes s.sum) :
    (x = none → Within s'.decodes s'.sum) ∧ ∃ sum, Within s'.decodes sum := by
  induction list generalizing i s with
  | nil =>
    cases h
    exact ⟨fun _ => hs, _, hs⟩
  | cons f rest ih =>
    rw [filesChecked] at h
    split at h
    · rename_i fail s₁ hround
      cases h
      exact ⟨fun hnone => absurd hnone (Option.some_ne_none _), (fileChecked_within hround hs).2⟩
    · rename_i s₁ hround
      exact ih h ((fileChecked_within hround hs).1 rfl)

end Run

/-! ## The body -/

/-- A body whose shape and bounds hold. -/
structure IsBody (env : Env) (body : Json) (limit : Limit) (b : ImportBody) : Prop where
  fields : ∃ fields, body = .obj fields ∧ unknownField IMPORT_FIELDS fields = none
  migrationId : migrationIdOf body = some b.migrationId
  instructions : textField env body (js "instructions") limit false = .ok b.instructions
  total : totalOf body = some b.totalBytes
  bounded : b.totalBytes ≤ IMPORT_TOTAL_MAX_BYTES
  files : body.field? (js "files") = some (.arr b.list)
  few : b.list.length ≤ IMPORT_FILES_MAX

def onItems (change : List Json → List Json) (value : Json) : Json :=
  match value with
  | .arr list => .arr (change list)
  | value => value

/-- One field of a body sent again, without the files listed and with another total. -/
def resentField (listed : List Nat) (bytes : Nat) (name : Str) (value : Json) : Json :=
  if name = js "files" then onItems (without 0 listed) value
  else if name = js "totalBytes" then .num (numText bytes)
  else value

/-- The body without the files listed, and with another total. -/
def resent (listed : List Nat) (bytes : Nat) (body : Json) : Json :=
  match body with
  | .obj fields => .obj (fields.map fun f => (f.1, resentField listed bytes f.1 f.2))
  | body => body

section Body

variable {body : Json} {limit : Limit} {b : ImportBody} {listed : List Nat} {bytes : Nat} {name : Str}

theorem bodyOf_iff : bodyOf env body limit = .ok b ↔ IsBody env body limit b := by
  constructor
  · intro h
    unfold bodyOf at h
    split at h
    · rename_i fields
      split at h
      · cases h
      rename_i hknown
      split at h
      · cases h
      rename_i id hid
      split at h
      · cases h
      rename_i instructions hinstructions
      split at h
      · cases h
      rename_i total htotal
      split at h
      · cases h
      rename_i hbounded
      split at h
      · rename_i list hfiles
        split at h
        · cases h
        rename_i hfew
        cases h
        exact ⟨⟨fields, rfl, hknown⟩, hid, hinstructions, htotal, Nat.le_of_not_lt hbounded, hfiles, Nat.le_of_not_lt hfew⟩
      · cases h
    · cases h
  · rintro ⟨⟨fields, rfl, hknown⟩, hid, hinstructions, htotal, hbounded, hfiles, hfew⟩
    simp only [bodyOf]
    rw [hknown]
    dsimp only
    rw [hid]
    dsimp only
    rw [hinstructions]
    dsimp only
    rw [htotal]
    dsimp only
    rw [if_neg (Nat.not_lt.2 hbounded), hfiles]
    dsimp only
    rw [if_neg (Nat.not_lt.2 hfew)]

theorem field_resent (body : Json) : (resent listed bytes body).field? name =
    (body.field? name).map (resentField listed bytes name) := by
  cases body with
  | obj fields =>
    rw [resent, Json.field?, Json.field?, List.find?_map, Option.map_map, Option.map_map]
    have hsame : ((fun f : Str × Json => f.1 == name) ∘ fun f : Str × Json => (f.1, resentField listed bytes f.1 f.2)) =
      fun f => f.1 == name := rfl
    rw [hsame]
    cases hfound : fields.find? fun f => f.1 == name with
    | none => rfl
    | some f =>
      have hname : f.1 = name := beq_iff_eq.1 (List.find?_some hfound :)
      simp [hname]
  | _ => rfl

theorem field_resent_other (body : Json) (hfiles : name ≠ js "files") (htotal : name ≠ js "totalBytes") :
    (resent listed bytes body).field? name = body.field? name := by
  have hself : resentField listed bytes name = id := by
    funext value
    rw [resentField, if_neg hfiles, if_neg htotal]
    rfl
  rw [field_resent, hself, Option.map_id_fun, id]

theorem IsBody.resent (h : IsBody env body limit b) (hbytes : bytes ≤ IMPORT_TOTAL_MAX_BYTES) :
    IsBody env (resent listed bytes body) limit ⟨b.migrationId, b.instructions, bytes, without 0 listed b.list⟩ := by
  obtain ⟨fields, rfl, hknown⟩ := h.fields
  refine ⟨⟨_, rfl, ?_⟩, ?_, ?_, ?_, hbytes, ?_, ?_⟩
  · rw [unknownField, List.map_map]
    exact hknown
  · rw [migrationIdOf, field_resent_other _ (by decide) (by decide)]
    exact h.migrationId
  · rw [textField, field_resent_other _ (by decide) (by decide)]
    exact h.instructions
  · have hsafe : bytes < 2 ^ 53 := lt_of_le_of_lt hbytes (by decide)
    have htotal := h.total
    unfold totalOf at htotal ⊢
    rw [field_resent]
    split at htotal
    · rename_i text hfound
      rw [hfound, Option.map_some, resentField, if_neg (by decide), if_pos rfl]
      exact safeInteger_numText hsafe
    · cases htotal
  · rw [field_resent, h.files]
    rfl
  · rw [without, List.length_map]
    exact (List.length_filter_le _ _).trans (by rw [List.length_zipIdx]; exact h.few)

end Body

/-! ## The answers -/

/-- A file as it was sent, and what it is taken as. -/
structure IsFile (env : Env) (sent : Json) (file : ImportFile) : Prop where
  /-- Its path is the one sent without its empty and `.` segments. -/
  path : ∃ raw, sent.field? (js "path") = some (.str raw) ∧
    file.path = join (js "/") ((splitOn (unit '/') raw).filter fun p => p ≠ [] && p ≠ js ".")
  key : SeedLines.stateKey file.path = true
  unreserved : startsWith (js "kept:") (env.toLowerCase file.path) = false ∧ file.path ∉ WORKING_SET
  again : importPath env (some (.str file.path)) = .path file.path
  /-- Its text is encoded as the bytes sent, of the number and the hash sent. -/
  content : ∃ b64 bin, sent.field? (js "contentBase64") = some (.str b64) ∧ atob b64 = some bin ∧
    utf8 file.text = bin.map (fun u => u.toNat.toUInt8) ∧ (utf8 file.text).length = file.bytes ∧ sizeOf b64 = file.bytes
  sha : ∃ sha, sent.field? (js "sha256") = some (.str sha) ∧ env.toLowerCase sha = file.sha256 ∧
    env.sha256 (utf8 file.text) = file.sha256

theorem Passes.isFile {sent : Json} {b64 : Str} {file : ImportFile} (h : Passes env sent b64 file) : IsFile env sent file := by
  obtain ⟨raw, hraw, hpath⟩ := importPath_iff.1 h.path
  obtain ⟨sha, hsha, -, hlower⟩ := h.sha
  obtain ⟨bin, hbin, -⟩ := decoded_length h.padded
  have htext : utf8 file.text = decoded b64 := utf8_utf8Text h.text
  have hfree : file.path ∉ WORKING_SET := by simpa using hpath.free
  refine ⟨⟨raw, hraw, hpath.normal⟩, hpath.key, ⟨hpath.unkept, hfree⟩, importPath_iff.2 ⟨_, rfl, hpath.again⟩,
    ⟨b64, bin, h.content, hbin, ?_, ?_, h.sizeOf_eq⟩, ⟨sha, hsha, hlower, ?_⟩⟩
  · rw [htext, decoded, hbin, Option.getD_some]
  · rw [htext, h.bytes]
  · rw [htext, h.hash]

section Answers

variable {body : Json} {limit : Limit} {c : ImportChecked} {a : ImportAccepted}

theorem rejected_nil {seed : Bool} {listed : List ImportRejection} {more files bytes : Nat}
    (h : importCheck env body seed = .checked true listed more files bytes) :
    ∃ c, (importChecked env body (instructionsLimit seed)).1 = .ok c ∧ c.rejected = [] := by
  unfold importCheck at h
  split at h
  · cases h
  · rename_i c hc
    injection h with hok
    exact ⟨c, hc, List.isEmpty_iff.1 hok⟩

theorem importRequest_iff : importRequest env body limit = .ok a ↔
    (importChecked env body limit).1 = .ok ⟨a.migrationId, a.instructions, a.files, a.totalBytes, []⟩ := by
  unfold importRequest
  cases hc : (importChecked env body limit).1 with
  | error x => simp
  | ok c =>
    obtain ⟨migrationId, instructions, files, totalBytes, rejected⟩ := c
    cases rejected with
    | nil => cases a; simp
    | cons first rest => simp

/-- What the check answers of a body whose shape holds, and of the files in it. -/
theorem importChecked_ok (h : (importChecked env body limit).1 = .ok c) : ∃ b s taken, IsBody env body limit b ∧
    filesChecked env 0 b.list Scan.new = (none, s) ∧ Taken env 0 b.list Scan.new s taken c.rejected ∧
    s.sum ≤ IMPORT_TOTAL_MAX_BYTES ∧ (c.rejected = [] → s.sum = b.totalBytes) ∧
    c = ⟨b.migrationId, b.instructions, taken.map (·.2), (taken.map (·.2.bytes)).sum, c.rejected⟩ := by
  unfold importChecked at h
  split at h
  · cases h
  rename_i b hb
  split at h
  · cases h
  rename_i s hs
  split at h
  · cases h
  rename_i htotal
  cases h
  obtain ⟨taken, refused, hrun⟩ := filesChecked_next hs
  have hrejected : s.rejected = refused := by rw [hrun.rejected]; rfl
  have hfiles : s.files = taken.map (·.2) := by rw [hrun.files]; rfl
  have hwithin : Within s.decodes s.sum := (filesChecked_within hs ⟨by simp [Scan.new], rfl, by decide⟩).1 rfl
  refine ⟨b, s, taken, bodyOf_iff.1 hb, hs, ?_, hwithin.bounded, fun hnil => ?_, ?_⟩
  · rw [hrejected]
    exact hrun
  · by_contra hne
    exact htotal ⟨List.isEmpty_iff.2 hnil, hne⟩
  · rw [hfiles, List.map_map]
    rfl

theorem sizes_eq {list : List Json} {taken : List (Str × ImportFile)}
    (h : List.Forall₂ (fun f t => Passes env f t.1 t.2) list taken) :
    (taken.map fun t => sizeOf t.1).sum = (taken.map (·.2.bytes)).sum := by
  induction h with
  | nil => rfl
  | cons hpasses _ ih => rw [List.map_cons, List.map_cons, List.sum_cons, List.sum_cons, hpasses.sizeOf_eq, ih]

/-- What is decoded, whatever is answered. -/
theorem importChecked_within (env : Env) (body : Json) (limit : Limit) : ∃ sum, Within (importChecked env body limit).2 sum := by
  have hnone : Within [] 0 := ⟨by simp, rfl, by decide⟩
  unfold importChecked
  split
  · exact ⟨0, hnone⟩
  rename_i b hb
  cases hs : filesChecked env 0 b.list Scan.new with
  | mk x s =>
    have hwithin := (filesChecked_within hs hnone).2
    cases x with
    | some x => exact hwithin
    | none =>
      dsimp only
      split <;> exact hwithin

theorem importChecked_decodes (h : (importChecked env body limit).2 ≠ []) : ∃ b, IsBody env body limit b := by
  unfold importChecked at h
  split at h
  · exact absurd rfl h
  · rename_i b hb
    exact ⟨b, bodyOf_iff.1 hb⟩

/-- A body whose files all pass is accepted as they are. -/
theorem importChecked_passes {b : ImportBody} {taken : List (Str × ImportFile)} (hb : IsBody env body limit b)
    (hpasses : List.Forall₂ (fun f t => Passes env f t.1 t.2) b.list taken) (hdistinct : (taken.map (·.2.path)).Nodup)
    (hsum : (taken.map (·.2.bytes)).sum = b.totalBytes) :
    (importChecked env body limit).1 = .ok ⟨b.migrationId, b.instructions, taken.map (·.2), b.totalBytes, []⟩ := by
  have hsizes := (sizes_eq hpasses).trans hsum
  obtain ⟨s, hrun, hfiles, hrejected, hs⟩ := filesChecked_passes (i := 0) (s := Scan.new) hpasses hdistinct (by simp [Scan.new]) (by
    rw [hsizes, Scan.new, Nat.zero_add]
    exact hb.bounded)
  have htotal : s.sum = b.totalBytes := by rw [hs, hsizes, Scan.new, Nat.zero_add]
  rw [importChecked, bodyOf_iff.2 hb]
  dsimp only
  rw [hrun]
  dsimp only
  rw [if_neg fun h => h.2 htotal, hfiles, hrejected]
  simp only [Scan.new, List.nil_append, List.map_map]
  rw [← hsum]
  rfl

end Answers

end Antiproton.Provision
