import Antiproton.Core.JsonText
import Antiproton.Import.Workspace

/-!
# Antiproton.Import.Digest

The digest of an import says what it is of: its text is read back from the front.

* `canonJson_digest`: the text that is hashed. `digestText_inj`: two such texts are the same only for the same import.
* `digest_iff`: two requests have one digest exactly when they carry the same id, instructions and files.
-/

namespace Antiproton.Import

open Js

/-- What is digested of one file. -/
def fileText (f : String × String) : Str :=
  js "\x7b\"path\":" ++ (quote (js f.1) ++ js ",\"sha256\":" ++ quote (js f.2)) ++ js "\x7d"

theorem fileText_code : Code.Prefix fileText := by
  have hpath : Code.Prefix fun s : String => quote (js s) ++ js ",\"sha256\":" := by
    have hwrap := (quote_code.comp js_injective).wrap [] (js ",\"sha256\":")
    simpa only [List.nil_append] using hwrap
  exact (hpath.append (quote_code.comp js_injective)).wrap _ _

theorem join_map {A : Type} (f : A → Str) (sep : UInt16) (as : List A) : join [sep] (as.map f) = Code.joined f sep as := by
  induction as with
  | nil => rfl
  | cons a as ih =>
    cases as with
    | nil => rfl
    | cons b as =>
      rw [List.map_cons, join_cons _ _ (by simp), ih, List.append_assoc]
      rfl

def filesText (fs : List (String × String)) : Str := Code.joined fileText (unit ',') fs ++ [unit ']']

theorem filesText_code : Code.Prefix filesText := by
  refine Code.separated fileText_code (by decide) fun f x y heq => ?_
  have hhead := congrArg List.head? heq
  rw [fileText, List.append_assoc, List.append_assoc, show js "\x7b\"path\":" = unit '{' :: js "\"path\":" from by decide,
    List.cons_append, List.head?_cons, List.head?_cons] at hhead
  exact absurd (Option.some.inj hhead) (by decide)

def instructionsText (i : Option Str) : Str := (i.map quote).getD (js "null")

theorem instructionsText_code : Code.Prefix instructionsText := by
  rintro (_ | s) (_ | t) x y heq
  · exact ⟨rfl, List.append_cancel_left heq⟩
  · exact absurd (List.cons.inj heq).1 (by decide)
  · exact absurd (List.cons.inj heq).1 (by decide)
  · obtain ⟨rfl, hrest⟩ := quote_code _ _ _ _ heq
    exact ⟨rfl, hrest⟩

/-- The text the digest is of. -/
def digestText (fs : List (String × String)) (instructions : Option Str) (migrationId : String) : Str :=
  js "\x7b\"files\":[" ++ filesText fs ++ js ",\"instructions\":" ++ instructionsText instructions ++ js ",\"migrationId\":" ++
    quote (js migrationId) ++ js "\x7d"

theorem digestText_inj {fs fs' : List (String × String)} {i i' : Option Str} {m m' : String}
    (h : digestText fs i m = digestText fs' i' m') : fs = fs' ∧ i = i' ∧ m = m' := by
  unfold digestText at h
  simp only [List.append_assoc] at h
  obtain ⟨hfiles, h⟩ := filesText_code _ _ _ _ (List.append_cancel_left h)
  obtain ⟨hinstructions, h⟩ := instructionsText_code _ _ _ _ (List.append_cancel_left h)
  obtain ⟨hmigration, -⟩ := quote_code _ _ _ _ (List.append_cancel_left h)
  exact ⟨hfiles, hinstructions, js_injective hmigration⟩

theorem canon_file (f : ImportedFile) : Json.canon f.json = f.json := by
  have hkeys : js "path" ≤ js "sha256" := by decide
  simp [ImportedFile.json, Json.ofString, Json.canon, Json.canonFields, hkeys]

theorem stringify_file (f : ImportedFile) : f.json.stringify = fileText (f.path, f.sha256) := by
  have hpath : js "\x7b\"path\":" = unit '{' :: (quote (js "path") ++ [unit ':']) := by decide
  have hsha : js ",\"sha256\":" = unit ',' :: (quote (js "sha256") ++ [unit ':']) := by decide
  have hclose : js "\x7d" = [unit '}'] := by decide
  rw [fileText, hpath, hsha, hclose]
  simp [ImportedFile.json, Json.ofString, Json.stringify, Json.stringifyFields, join]

theorem canonItems_files (fs : List ImportedFile) : Json.canonItems (fs.map (·.json)) = fs.map (·.json) := by
  induction fs with
  | nil => rfl
  | cons f fs ih => rw [List.map_cons, Json.canonItems, canon_file, ih]

theorem stringifyItems_files (fs : List ImportedFile) :
    Json.stringifyItems (fs.map (·.json)) = (fs.map fun f => (f.path, f.sha256)).map fileText := by
  induction fs with
  | nil => rfl
  | cons f fs ih => rw [List.map_cons, Json.stringifyItems, stringify_file, ih, List.map_cons, List.map_cons]

theorem canonJson_digest (migrationId : String) (instructions : Option Str) (files : List ImportedFile) :
    (digestJson migrationId instructions files).canonJson =
      digestText ((sortFiles files).map fun f => (f.path, f.sha256)) instructions migrationId := by
  have hfi : js "files" ≤ js "instructions" := by decide
  have hfm : js "files" ≤ js "migrationId" := by decide
  have hif : ¬ js "instructions" ≤ js "files" := by decide
  have hmf : ¬ js "migrationId" ≤ js "files" := by decide
  have hmi : ¬ js "migrationId" ≤ js "instructions" := by decide
  have hinstructions : Json.canon ((instructions.map Json.str).getD .null) = (instructions.map Json.str).getD .null := by
    cases instructions <;> rfl
  have htext : ((instructions.map Json.str).getD .null).stringify = instructionsText instructions := by
    cases instructions <;> rfl
  have hcanon : (digestJson migrationId instructions files).canon =
      .obj [(js "files", .arr ((sortFiles files).map (·.json))),
        (js "instructions", (instructions.map Json.str).getD .null), (js "migrationId", .ofString migrationId)] := by
    simp [digestJson, Json.ofString, Json.canon, Json.canonFields, canonItems_files, hinstructions, hif, hmf, hmi]
  have hopen : js "\x7b\"files\":[" = unit '{' :: (quote (js "files") ++ [unit ':', unit '[']) := by decide
  have hmiddle : js ",\"instructions\":" = unit ',' :: (quote (js "instructions") ++ [unit ':']) := by decide
  have hlast : js ",\"migrationId\":" = unit ',' :: (quote (js "migrationId") ++ [unit ':']) := by decide
  have hclose : js "\x7d" = [unit '}'] := by decide
  rw [Json.canonJson, hcanon, digestText, hopen, hmiddle, hlast, hclose, filesText, ← join_map]
  simp [Json.stringify, Json.stringifyFields, stringifyItems_files, htext, join, Json.ofString]

theorem wellFormed_joined {A : Type} {f : A → Str} {sep : UInt16} (hsep : WellFormed [sep]) (hf : ∀ a, WellFormed (f a))
    (as : List A) : WellFormed (Code.joined f sep as) := by
  induction as with
  | nil => exact wellFormed_nil
  | cons a as ih =>
    cases as with
    | nil => exact hf a
    | cons b as => exact (hf a).append (hsep.append ih)

theorem wellFormed_fileText (f : String × String) : WellFormed (fileText f) :=
  ((wellFormed_js _).append (((wellFormed_quote _).append (wellFormed_js _)).append (wellFormed_quote _))).append
    (wellFormed_js _)

theorem wellFormed_digestText (fs : List (String × String)) (i : Option Str) (m : String) : WellFormed (digestText fs i m) := by
  have hfiles : WellFormed (filesText fs) :=
    (wellFormed_joined (wellFormed_js ",") wellFormed_fileText fs).append (wellFormed_js "]")
  have hinstructions : WellFormed (instructionsText i) := by
    cases i with
    | none => exact wellFormed_js "null"
    | some s => exact wellFormed_quote s
  exact ((((((wellFormed_js _).append hfiles).append (wellFormed_js _)).append hinstructions).append (wellFormed_js _)).append
    (wellFormed_quote _)).append (wellFormed_js _)

/-- A file as the digest sees it. -/
def ImportedFile.pair (f : ImportedFile) : String × String := (f.path, f.sha256)

theorem mem_sortFiles {files : List ImportedFile} {p : String × String} :
    p ∈ (sortFiles files).map ImportedFile.pair ↔ p ∈ files.map ImportedFile.pair :=
  ((Table.orderBy_perm _ files).map _).mem_iff

theorem sortFiles_sorted (fs : List ImportedFile) : (sortFiles fs).Pairwise fun f f' => js f.path ≤ js f'.path := by
  have : Std.Total fun f f' : ImportedFile => js f.path ≤ js f'.path := ⟨fun f f' => List.le_total (js f.path) (js f'.path)⟩
  have : IsTrans ImportedFile fun f f' => js f.path ≤ js f'.path := ⟨fun _ _ _ => List.le_trans⟩
  exact List.pairwise_insertionSort (fun f f' : ImportedFile => js f.path ≤ js f'.path) fs

/-- Files of unique paths, sorted, are known from the set of them. -/
theorem sortFiles_eq {files files' : List ImportedFile} (hunique : (files.map (·.path)).Nodup)
    (hunique' : (files'.map (·.path)).Nodup)
    (h : ∀ p, p ∈ files.map ImportedFile.pair ↔ p ∈ files'.map ImportedFile.pair) :
    (sortFiles files).map ImportedFile.pair = (sortFiles files').map ImportedFile.pair := by
  have hsorted : ∀ fs : List ImportedFile,
      ((sortFiles fs).map ImportedFile.pair).Pairwise fun p q => js p.1 ≤ js q.1 := fun fs =>
    List.pairwise_map.2 (sortFiles_sorted fs)
  have hpaths : ∀ {fs : List ImportedFile}, (fs.map (·.path)).Nodup →
      (((sortFiles fs).map ImportedFile.pair).map Prod.fst).Nodup := by
    intro fs hfs
    rw [List.map_map]
    exact ((Table.orderBy_perm _ fs).map _).nodup_iff.2 hfs
  have hperm : ((sortFiles files).map ImportedFile.pair).Perm ((sortFiles files').map ImportedFile.pair) := by
    refine (List.perm_ext_iff_of_nodup (List.Nodup.of_map _ (hpaths hunique)) (List.Nodup.of_map _ (hpaths hunique'))).2
      fun p => ?_
    rw [mem_sortFiles, mem_sortFiles]
    exact h p
  refine hperm.eq_of_pairwise (fun p q hp hq hpq hqp => ?_) (hsorted files) (hsorted files')
  exact List.inj_on_of_nodup_map (hpaths hunique) hp (hperm.mem_iff.2 hq) (js_injective (List.le_antisymm hpq hqp))

/-- Requests of unique paths, of which the hash has no collision, have one digest exactly when they are the same. -/
theorem digest_iff (env : SeedEnv) {m m' : String} {i i' : Option Str} {files files' : List ImportedFile}
    (hunique : (files.map (·.path)).Nodup) (hunique' : (files'.map (·.path)).Nodup)
    (hhash : env.sha256 (utf8 (digestJson m i files).canonJson) = env.sha256 (utf8 (digestJson m' i' files').canonJson) →
      utf8 (digestJson m i files).canonJson = utf8 (digestJson m' i' files').canonJson) :
    importDigest env m i files = importDigest env m' i' files' ↔
      m = m' ∧ i = i' ∧ ∀ p, p ∈ files.map ImportedFile.pair ↔ p ∈ files'.map ImportedFile.pair := by
  rw [canonJson_digest, canonJson_digest] at hhash
  unfold importDigest SeedEnv.sha256Hex
  rw [canonJson_digest, canonJson_digest]
  constructor
  · intro heq
    obtain ⟨hfiles, hi, hm⟩ := digestText_inj (utf8_injective (wellFormed_digestText _ _ _) (wellFormed_digestText _ _ _)
      (hhash heq))
    refine ⟨hm, hi, fun p => ?_⟩
    exact mem_sortFiles.symm.trans ((iff_of_eq (congrArg (p ∈ ·) hfiles)).trans mem_sortFiles)
  · rintro ⟨rfl, rfl, hsame⟩
    exact congrArg (fun fs => env.sha256 (utf8 (digestText fs i m))) (sortFiles_eq hunique hunique' hsame)

end Antiproton.Import
