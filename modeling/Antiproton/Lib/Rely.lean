import Antiproton.Lib.Process

/-!
# Antiproton.Lib.Rely

Programs that may be interfered with at every action. `Safe` says of a program that each action it takes is one that
may be taken where it takes it, however the world has moved since by steps of `rely`; what every permitted action keeps
and what it may do to others are stated once, of the actions.

* `Safe.bind`, `Safe.stable`: the rules by which a program's parts are put together.
* `safe_run`: beside any number of safe programs, in any interleaving and with any of them cut off, what permitted
  actions keep holds of every state reached.
-/

namespace Process

/-- What the actions of a machine keep, may do, and may be done to the world between them. -/
structure Discipline (M : Machine) where
  Inv : M.W → Prop
  rely : M.W → M.W → Prop
  may : M.F.Op → M.W → Prop
  refl : ∀ w, rely w w
  trans : ∀ {w w' w''}, rely w w' → rely w' w'' → rely w w''
  /-- A permitted action keeps the invariant, and does to the others no more than they rely on. -/
  acts : ∀ o i w, Inv w → may o w → Inv (M.exec o i w).2 ∧ rely w (M.exec o i w).2

section Safe

variable {M : Machine} {A B : Type}

/-- Whatever the world has become, each action is permitted where it is taken. -/
def Safe (D : Discipline M) (Q : A → M.W → Prop) : Prog M.F M.X A → M.W → Prop
  | .done a, w => ∀ w', D.rely w w' → D.Inv w' → Q a w'
  | .fail _, _ => True
  | .act o next, w => ∀ w', D.rely w w' → D.Inv w' →
    D.may o w' ∧ ∀ i, Safe D Q (next (M.exec o i w').1) (M.exec o i w').2

variable {D : Discipline M} {Q : A → M.W → Prop} {p : Prog M.F M.X A} {w w' : M.W}

theorem Safe.stable (h : Safe D Q p w) (hw : D.rely w w') : Safe D Q p w' := by
  cases p with
  | done a => exact fun w'' hr hI => h w'' (D.trans hw hr) hI
  | fail e => trivial
  | act o next => exact fun w'' hr hI => h w'' (D.trans hw hr) hI

theorem Safe.bind {P : B → M.W → Prop} {f : A → Prog M.F M.X B} (hp : Safe D Q p w) (hI : D.Inv w)
    (hf : ∀ a w', D.Inv w' → Q a w' → Safe D P (f a) w') : Safe D P (p >>= f) w := by
  induction p generalizing w with
  | done a => exact hf a w hI (hp w (D.refl w) hI)
  | fail e => trivial
  | act o next ih =>
    intro w' hr hI'
    obtain ⟨hmay, hnext⟩ := hp w' hr hI'
    exact ⟨hmay, fun i => ih _ (hnext i) (D.acts o i w' hI' hmay).1⟩

theorem Safe.mono {P : A → M.W → Prop} (h : Safe D Q p w) (hP : ∀ a w, D.Inv w → Q a w → P a w) : Safe D P p w := by
  induction p generalizing w with
  | done a => exact fun w' hr hI => hP a w' hI (h w' hr hI)
  | fail e => trivial
  | act o next ih => exact fun w' hr hI => ⟨(h w' hr hI).1, fun i => ih _ ((h w' hr hI).2 i)⟩

theorem Safe.pure {a : A} (hQ : ∀ w', D.rely w w' → D.Inv w' → Q a w') : Safe D Q (.done a) w := hQ

/-- One action, permitted, and what holds of its answer however the world moves on. -/
theorem Safe.perform {o : M.F.Op} {Q : M.F.Ans o → M.W → Prop}
    (h : ∀ w', D.rely w w' → D.Inv w' →
      D.may o w' ∧ ∀ i w'', D.rely (M.exec o i w').2 w'' → D.Inv w'' → Q (M.exec o i w').1 w'') :
    Safe D Q (Prog.perform o) w :=
  fun w' hr hI => ⟨(h w' hr hI).1, fun i w'' hr' hI' => (h w' hr hI).2 i w'' hr' hI'⟩

/-- One action whose answer may be an error, which is thrown. -/
theorem Safe.perform_ok {o : M.F.Op} {B : Type} {as : M.F.Ans o → Except M.X B} {Q : B → M.W → Prop}
    (h : ∀ w', D.rely w w' → D.Inv w' → D.may o w' ∧ ∀ i b w'', as (M.exec o i w').1 = .ok b →
      D.rely (M.exec o i w').2 w'' → D.Inv w'' → Q b w'') :
    Safe D Q (.act o fun r => Prog.ofExcept (as r)) w := by
  intro w' hr hI
  refine ⟨(h w' hr hI).1, fun i => ?_⟩
  show Safe D Q (Prog.ofExcept (as (M.exec o i w').1)) _
  cases ha : as (M.exec o i w').1 with
  | error e => trivial
  | ok b => exact fun w'' hr' hI' => (h w' hr hI).2 i b w'' ha hr' hI'

end Safe

section Run

variable {M : Machine} (D : Discipline M)

/-- Every program under way is safe, and the world keeps the invariant. -/
def SafeSys (s : Sys M) : Prop :=
  D.Inv s.world ∧ ∀ p ∈ s.procs, Safe D (fun _ _ => True) p.rest s.world

/-- What else may happen: a change of the world that keeps the invariant and what the programs rely on. -/
def Allowed (s : Sys M) : Move M → Prop
  | .env f => D.Inv s.world → D.Inv (f s.world) ∧ D.rely s.world (f s.world)
  | _ => True

variable {D}

theorem safe_move (hprog : ∀ r w, D.Inv w → Safe D (fun _ _ => True) (M.prog r) w) {s : Sys M} {m : Move M}
    (hs : SafeSys D s) (hm : Allowed D s m) : SafeSys D (s.move m) := by
  obtain ⟨hI, hp⟩ := hs
  rcases s.move_cases m with ⟨r, -, h⟩ | ⟨f, rfl, h⟩ | h | ⟨i, input, p, o, next, -, hi, hrest, h⟩
  · rw [h]
    refine ⟨hI, fun q hq => ?_⟩
    rcases List.mem_append.1 hq with hq | hq
    · exact hp q hq
    · rw [List.mem_singleton] at hq
      subst hq
      exact hprog r s.world hI
  · rw [h]
    obtain ⟨hI', hr⟩ := hm hI
    exact ⟨hI', fun q hq => (hp q hq).stable hr⟩
  · rw [h]
    exact ⟨hI, hp⟩
  · rw [h]
    have hsafe := hp p (List.mem_of_getElem? hi)
    rw [hrest] at hsafe
    obtain ⟨hmay, hnext⟩ := hsafe s.world (D.refl _) hI
    obtain ⟨hI', hr⟩ := D.acts o input s.world hI hmay
    refine ⟨hI', fun q hq => ?_⟩
    rcases List.mem_or_eq_of_mem_set hq with hq | hq
    · exact (hp q hq).stable hr
    · subst hq
      exact hnext input

/-- In every interleaving of safe programs the invariant holds. -/
theorem safe_run (hprog : ∀ r w, D.Inv w → Safe D (fun _ _ => True) (M.prog r) w) {w : M.W} (hw : D.Inv w)
    {ms : List (Move M)} (hg : Guarded (Allowed D) ⟨w, []⟩ ms) : D.Inv ((⟨w, []⟩ : Sys M).run ms).world := by
  have hstart : SafeSys D (⟨w, []⟩ : Sys M) := ⟨hw, fun _ hp => absurd hp List.not_mem_nil⟩
  exact (invariant (fun s m hs hm => safe_move hprog hs hm) hstart hg).1

end Run

/-! ## Programs and nothing else -/

/-- What may happen where nothing but the programs touches the world: one is begun, or one takes its next action. -/
inductive Turn (M : Machine) where
  | start (r : M.R)
  | step (i : Nat) (input : M.I)

section Play

variable {M : Machine} {D : Discipline M}

def Turn.move : Turn M → Move M
  | start r => .start r
  | step i input => .step i input

/-- A run of the programs alone, from a world. -/
def play (w : M.W) (turns : List (Turn M)) : Sys M := (⟨w, []⟩ : Sys M).run (turns.map Turn.move)

theorem safe_play (hprog : ∀ r w, D.Inv w → Safe D (fun _ _ => True) (M.prog r) w) {w : M.W} (hw : D.Inv w)
    (turns : List (Turn M)) : D.Inv (play w turns).world := by
  refine safe_run hprog hw ?_
  generalize (⟨w, []⟩ : Sys M) = s
  induction turns generalizing s with
  | nil => trivial
  | cons turn turns ih =>
    refine ⟨?_, ih _⟩
    cases turn <;> trivial

/-- A safe program run alone keeps the invariant. -/
theorem Safe.alone {A : Type} {Q : A → M.W → Prop} {p : Prog M.F M.X A} (input : M.I) {w : M.W} (hw : D.Inv w)
    (hp : Safe D Q p w) : D.Inv (p.alone (fun o => M.exec o input) w).2 := by
  induction p generalizing w with
  | done a => exact hw
  | fail e => exact hw
  | act o next ih =>
    obtain ⟨hmay, hnext⟩ := hp w (D.refl w) hw
    exact ih _ (D.acts o input w hw hmay).1 (hnext input)

end Play

end Process
