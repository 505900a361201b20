import Antiproton.Conversations.FreshMain
import Mathlib.Tactic.IntervalCases

/-!
# Antiproton.Conversations.Names

The names a main conversation goes by: its id by its generation, the archived session of that id, and the tables of the
session. A generation is at most the largest number that is told from its successor, so a slug is never cut.

* `stem_injective`: no two of the sessions a main conversation is kept under have tables of one name.
-/

namespace Antiproton.Conversations

open Js

/-- The id of the conversation of a generation. -/
def mainId (g : Nat) : Str := if g = 0 then FIRST_MAIN_ID else FIRST_MAIN_ID ++ js "." ++ js (toString g)

/-- The session that holds the conversation of a generation once it has ended. -/
def archive (g : Nat) : Str := archivedName (mainId g)

/-- A session a main conversation may be kept under. -/
def Known (s : Str) : Prop := s = MAIN_SESSION ∨ ∃ g ≤ MAX_EXACT, s = archive g

theorem js_nat_injective {n m : Nat} (h : js (toString n) = js (toString m)) : n = m := by
  rw [← numberOf_nat n, h, numberOf_nat]

theorem mainId_succ (g : Nat) : mainId (g + 1) = FIRST_MAIN_ID ++ js "." ++ js (toString (g + 1)) := if_neg (by omega)

theorem mainId_injective : Function.Injective mainId := by
  have hzero : ∀ g, mainId (g + 1) ≠ mainId 0 := by
    intro g h
    rw [mainId_succ, List.append_assoc] at h
    have hlen := congrArg List.length h
    rw [List.length_append, List.length_append, show mainId 0 = FIRST_MAIN_ID from rfl,
      show (js ".").length = 1 from rfl] at hlen
    omega
  intro g g' h
  cases g with
  | zero => cases g' with
    | zero => rfl
    | succ g' => exact absurd h.symm (hzero g')
  | succ g => cases g' with
    | zero => exact absurd h (hzero g)
    | succ g' =>
      rw [mainId_succ, mainId_succ] at h
      exact js_nat_injective (List.append_cancel_left h)

theorem archive_injective : Function.Injective archive := fun _ _ h => mainId_injective (List.append_cancel_left h)

theorem archive_ne_main (g : Nat) : archive g ≠ MAIN_SESSION := by
  intro h
  have hlen := congrArg List.length h
  rw [archive, archivedName, List.length_append, show (js "archived:").length = 9 from rfl,
    show MAIN_SESSION.length = 4 from rfl] at hlen
  omega

/-! ## Slugs -/

theorem digits_kept {ds : Str} (hd : ∀ u ∈ ds, isDigit u = true) :
    ds.map (fun c => if isAlnum c then c else unit '_') = ds ∧ ds.map toLower = ds := by
  constructor
  · refine (List.map_congr_left fun u hu => ?_).trans (List.map_id ds)
    rw [isAlnum, hd u hu]
    rfl
  · refine (List.map_congr_left fun u hu => ?_).trans (List.map_id ds)
    obtain ⟨-, hdigit⟩ : 0x30 ≤ u ∧ u ≤ 0x39 := by simpa [isDigit] using hd u hu
    have hnot : ¬(0x41 : UInt16) ≤ u := fun h => absurd (UInt16.le_trans h hdigit) (by decide)
    simp [toLower, hnot]

theorem digits_nat (n : Nat) : ∀ u ∈ js (toString n), isDigit u = true := by
  obtain ⟨c, rest, heq, hd, -⟩ := decimal_nat n
  rw [heq]
  exact hd

theorem length_nat {n : Nat} (h : n ≤ MAX_EXACT) : (js (toString n)).length ≤ 16 := by
  rw [units_nat, List.length_map, Nat.length_toDigits_le_iff (by decide) (by decide)]
  exact lt_of_le_of_lt h (by decide)

theorem archive_succ (g : Nat) : archive (g + 1) = js "archived:main." ++ js (toString (g + 1)) := by
  rw [archive, archivedName, mainId_succ, ← List.append_assoc]
  rfl

theorem slug_archive {g : Nat} (h : g + 1 ≤ MAX_EXACT) :
    slug (archive (g + 1)) = js "archived_main_" ++ js (toString (g + 1)) := by
  obtain ⟨hslug, hlower⟩ := digits_kept (digits_nat (g + 1))
  have hlen := length_nat h
  have hhead : (js "archived:main.").map (fun c => if isAlnum c then c else unit '_') = js "archived_main_" := by decide
  rw [slug, archive_succ, List.map_append, hslug, hhead, List.take_of_length_le, List.map_append, hlower]
  · rfl
  · rw [List.length_append, show (js "archived_main_").length = 14 from rfl]
    omega

theorem slug_archive_zero : slug (archive 0) = js "archived_main" := by decide

theorem slug_injective {g g' : Nat} (h : g ≤ MAX_EXACT) (h' : g' ≤ MAX_EXACT)
    (heq : slug (archive g) = slug (archive g')) : g = g' := by
  have hzero : ∀ g, g + 1 ≤ MAX_EXACT → slug (archive (g + 1)) ≠ slug (archive 0) := by
    intro g hg h
    rw [slug_archive hg, slug_archive_zero] at h
    have hlen := congrArg List.length h
    rw [List.length_append, show (js "archived_main_").length = 14 from rfl,
      show (js "archived_main").length = 13 from rfl] at hlen
    omega
  cases g with
  | zero => cases g' with
    | zero => rfl
    | succ g' => exact absurd heq.symm (hzero g' h')
  | succ g => cases g' with
    | zero => exact absurd heq (hzero g h)
    | succ g' =>
      rw [slug_archive h, slug_archive h'] at heq
      exact js_nat_injective (List.append_cancel_left heq)

/-! ## Stems -/

theorem underscore_not_mem_hex (n : Nat) : unit '_' ∉ hexText n := by
  induction n using Nat.strong_induction_on with
  | _ n ih =>
    rw [hexText, Nat.toDigits_eq_if (by decide)]
    split
    · interval_cases n <;> decide
    · rename_i hge
      rw [List.map_append, List.mem_append, not_or]
      refine ⟨ih (n / 16) (by omega), ?_⟩
      have hlt : n % 16 < 16 := Nat.mod_lt _ (by decide)
      interval_cases n % 16 <;> decide

theorem stem_archive (g : Nat) :
    stem (archive g) = js "pi_s_" ++ slug (archive g) ++ js "_" ++ hexText (hash (archive g)).toNat :=
  if_neg (archive_ne_main g)

theorem stem_archive_ne (g : Nat) : stem (archive g) ≠ stem MAIN_SESSION := by
  intro h
  rw [stem_archive, List.append_assoc, List.append_assoc] at h
  have hlen := congrArg List.length h
  rw [List.length_append, show (js "pi_s_").length = 5 from rfl, show (stem MAIN_SESSION).length = 2 from rfl] at hlen
  omega

/-- No two sessions a main conversation may be kept under have tables of one name. -/
theorem stem_injective {s s' : Str} (h : Known s) (h' : Known s') (heq : stem s = stem s') : s = s' := by
  rcases h with rfl | ⟨g, hg, rfl⟩ <;> rcases h' with rfl | ⟨g', hg', rfl⟩
  · rfl
  · exact absurd heq.symm (stem_archive_ne g')
  · exact absurd heq (stem_archive_ne g)
  · rw [stem_archive, stem_archive] at heq
    obtain ⟨hslug, -⟩ := cut_last (underscore_not_mem_hex _) (underscore_not_mem_hex _) heq
    rw [slug_injective hg hg' (List.append_cancel_left hslug)]

end Antiproton.Conversations
