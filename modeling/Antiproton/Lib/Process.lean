import Mathlib.Data.List.Basic
import Mathlib.Algebra.Order.BigOperators.Group.List
import Mathlib.Algebra.Order.Ring.Nat

/-!
# Antiproton.Lib.Process

Programs that run beside one another over one world, one atomic action at a time. A program is a tree
of actions; what an action answers, and does to the world, is the interface's, and what the
environment decides (a clock, a draw, what outside code answers) is an input to the step.

* `Keeps`: a program keeps a law on its own history, whatever the world answers, as a weakest
  precondition with a postcondition for its result and one for its error. `Keeps.bind`, `Keeps.mono`
  and `Keeps.attempt` are the rules by which a program's parts are put together.
* `Triple`: the same from a precondition, with one postcondition for results and errors.
* `Sys`: any number of programs, started by requests, in any interleaving with the environment.
* `invariant`: what every allowed move preserves holds of every state a guarded run reaches.
* `obeying_move`: when every request's program keeps the law, every history in a run obeys it.
* `Reaches`, `Ends`: one program alone, to an action of a kind or to its end, with the rules of the latter.
* `total_step`: how a sum over all histories grows with an action.
-/

namespace Process

/-- The actions of a program, and what each answers. -/
structure Interface where
  Op : Type
  Ans : Op → Type

/-- An action and its answer. -/
structure Event (F : Interface) where
  op : F.Op
  ans : F.Ans op

/-- A program: an action and how to go on from its answer, a result, or an error. -/
inductive Prog (F : Interface) (X A : Type) where
  | done (a : A)
  | fail (e : X)
  | act (o : F.Op) (next : F.Ans o → Prog F X A)

namespace Prog

variable {F : Interface} {X A B : Type}

protected def bind : Prog F X A → (A → Prog F X B) → Prog F X B
  | done a, f => f a
  | fail e, _ => fail e
  | act o next, f => act o fun a => (next a).bind f

instance : Monad (Prog F X) where
  pure := done
  bind := Prog.bind

/-- `try p catch (e) handler e`. -/
def attempt : Prog F X A → (X → Prog F X A) → Prog F X A
  | done a, _ => done a
  | fail e, handler => handler e
  | act o next, handler => act o fun a => (next a).attempt handler

/-- One action. -/
def perform (o : F.Op) : Prog F X (F.Ans o) := act o done

/-- A program run alone: its result or its error, and the world after. -/
def alone {W : Type} (exec : (o : F.Op) → W → F.Ans o × W) : Prog F X A → W → Except X A × W
  | done a, w => (.ok a, w)
  | fail e, w => (.error e, w)
  | act o next, w => (next (exec o w).1).alone exec (exec o w).2

/-- Run alone, what comes after starts from where the first part ended. -/
theorem alone_bind {W : Type} (exec : (o : F.Op) → W → F.Ans o × W) (p : Prog F X A) (f : A → Prog F X B) (w : W) :
    (p >>= f).alone exec w =
      match p.alone exec w with
      | (.ok a, w') => (f a).alone exec w'
      | (.error e, w') => (.error e, w') := by
  induction p generalizing w with
  | done a => rfl
  | fail e => rfl
  | act o next ih => exact ih _ _

/-- An `Except` as a program. -/
def ofExcept : Except X A → Prog F X A
  | .ok a => done a
  | .error e => fail e

@[simp] theorem pure_eq (a : A) : (pure a : Prog F X A) = done a := rfl

@[simp] theorem bind_eq (p : Prog F X A) (f : A → Prog F X B) : p >>= f = p.bind f := rfl

@[simp] theorem bind_done (a : A) (f : A → Prog F X B) : (done a : Prog F X A).bind f = f a := rfl

@[simp] theorem bind_fail (e : X) (f : A → Prog F X B) : (fail e : Prog F X A).bind f = fail e := rfl

@[simp] theorem bind_act (o : F.Op) (next : F.Ans o → Prog F X A) (f : A → Prog F X B) :
    (act o next).bind f = act o fun a => (next a).bind f := rfl

@[simp] theorem bind_perform (o : F.Op) (f : F.Ans o → Prog F X B) :
    (perform o : Prog F X (F.Ans o)).bind f = act o f := rfl

end Prog

/-! ## A law on a program's own history -/

/-- A law: which actions a program may take, by the events before it, the latest first. -/
abbrev Law (F : Interface) := List (Event F) → F.Op → Prop

section Keeps

variable {F : Interface} {X A B : Type} {law : Law F} {can : (o : F.Op) → F.Ans o → Prop}

/-- From the history `h`, whatever the possible answers, every action the program takes is lawful, a
result comes with `Q` and an error with `E`. -/
def Keeps (law : Law F) (can : (o : F.Op) → F.Ans o → Prop) (Q : A → List (Event F) → Prop)
    (E : X → List (Event F) → Prop) : Prog F X A → List (Event F) → Prop
  | .done a, h => Q a h
  | .fail e, h => E e h
  | .act o next, h => law h o ∧ ∀ a, can o a → Keeps law can Q E (next a) (⟨o, a⟩ :: h)

variable {Q : A → List (Event F) → Prop} {E : X → List (Event F) → Prop}

theorem Keeps.mono {Q' : A → List (Event F) → Prop} {E' : X → List (Event F) → Prop} {p : Prog F X A}
    {h : List (Event F)} (hp : Keeps law can Q E p h) (hQ : ∀ a h, Q a h → Q' a h)
    (hE : ∀ e h, E e h → E' e h) : Keeps law can Q' E' p h := by
  induction p generalizing h with
  | done a => exact hQ a h hp
  | fail e => exact hE e h hp
  | act o next ih => exact ⟨hp.1, fun a ha => ih a (hp.2 a ha)⟩

theorem Keeps.bind {R : B → List (Event F) → Prop} {p : Prog F X A} {f : A → Prog F X B}
    {h : List (Event F)} (hp : Keeps law can Q E p h) (hf : ∀ a h, Q a h → Keeps law can R E (f a) h) :
    Keeps law can R E (p.bind f) h := by
  induction p generalizing h with
  | done a => exact hf a h hp
  | fail e => exact hp
  | act o next ih => exact ⟨hp.1, fun a ha => ih a (hp.2 a ha)⟩

theorem Keeps.attempt {E' : X → List (Event F) → Prop} {p : Prog F X A} {handler : X → Prog F X A}
    {h : List (Event F)} (hp : Keeps law can Q E' p h)
    (hh : ∀ e h, E' e h → Keeps law can Q E (handler e) h) : Keeps law can Q E (p.attempt handler) h := by
  induction p generalizing h with
  | done a => exact hp
  | fail e => exact hh e h hp
  | act o next ih => exact ⟨hp.1, fun a ha => ih a (hp.2 a ha)⟩

theorem Keeps.act {o : F.Op} {next : F.Ans o → Prog F X A} {h : List (Event F)} (hl : law h o)
    (hn : ∀ a, can o a → Keeps law can Q E (next a) (⟨o, a⟩ :: h)) : Keeps law can Q E (.act o next) h :=
  ⟨hl, hn⟩

theorem Keeps.ofExcept {r : Except X A} {h : List (Event F)} (ho : ∀ a, r = .ok a → Q a h)
    (he : ∀ e, r = .error e → E e h) : Keeps law can Q E (Prog.ofExcept r) h := by
  cases r with
  | ok a => exact ho a rfl
  | error e => exact he e rfl

end Keeps

/-! ## Triples

A postcondition that is the same for a result and for an error. -/

section Triple

variable {F : Interface} {X A B : Type} {law : Law F} {can : (o : F.Op) → F.Ans o → Prop}

/-- From every history that meets `P` the program keeps its law, and it ends in `Q`. -/
structure Triple (law : Law F) (can : (o : F.Op) → F.Ans o → Prop) (P : List (Event F) → Prop) (p : Prog F X A)
    (Q : List (Event F) → Prop) : Prop where
  keeps : ∀ h, P h → Keeps law can (fun _ => Q) (fun _ => Q) p h

variable {P P' M Q Q' : List (Event F) → Prop}

theorem Triple.mono {p : Prog F X A} (hp : Triple law can P p Q) (hP : ∀ h, P' h → P h)
    (hQ : ∀ h, Q h → Q' h) : Triple law can P' p Q' :=
  ⟨fun h hh => (hp.keeps h (hP h hh)).mono (fun _ => hQ) (fun _ => hQ)⟩

theorem Triple.done {a : A} (hQ : ∀ h, P h → Q h) : Triple law can P (.done a : Prog F X A) Q := ⟨hQ⟩

theorem Triple.fail {e : X} (hQ : ∀ h, P h → Q h) : Triple law can P (.fail e : Prog F X A) Q := ⟨hQ⟩

theorem Triple.bind {p : Prog F X A} {f : A → Prog F X B} (hp : Triple law can P p M)
    (hM : ∀ h, M h → Q h) (hf : ∀ a, Triple law can M (f a) Q) : Triple law can P (p >>= f) Q :=
  ⟨fun h hh => ((hp.keeps h hh).mono (fun _ _ hm => hm) fun _ => hM).bind fun a h hm => (hf a).keeps h hm⟩

theorem Triple.attempt {p : Prog F X A} {handler : X → Prog F X A} (hp : Triple law can P p Q)
    (hh : ∀ e, Triple law can Q (handler e) Q) : Triple law can P (p.attempt handler) Q :=
  ⟨fun h hP => (hp.keeps h hP).attempt fun e h hQ => (hh e).keeps h hQ⟩

theorem Triple.act {o : F.Op} {next : F.Ans o → Prog F X A} {M : F.Ans o → List (Event F) → Prop}
    (hl : ∀ h, P h → law h o) (hm : ∀ a h, P h → can o a → M a (⟨o, a⟩ :: h))
    (hn : ∀ a, can o a → Triple law can (M a) (next a) Q) : Triple law can P (.act o next) Q :=
  ⟨fun h hP => ⟨hl h hP, fun a ha => (hn a ha).keeps _ (hm a h hP ha)⟩⟩

/-- What no event takes away is kept beside what a program does. -/
theorem Triple.frame {J : List (Event F) → Prop} {p : Prog F X A} (hJ : ∀ e h, J h → J (e :: h))
    (hp : Triple law can P p Q) : Triple law can (fun h => P h ∧ J h) p (fun h => Q h ∧ J h) := by
  have hkeeps : ∀ (p : Prog F X A) h, J h → Keeps law can (fun _ => Q) (fun _ => Q) p h →
      Keeps law can (fun _ h => Q h ∧ J h) (fun _ h => Q h ∧ J h) p h := by
    intro p
    induction p with
    | done a => exact fun h hj hk => ⟨hk, hj⟩
    | fail e => exact fun h hj hk => ⟨hk, hj⟩
    | act o next ih => exact fun h hj hk => ⟨hk.1, fun a ha => ih a _ (hJ _ h hj) (hk.2 a ha)⟩
  exact ⟨fun h hh => hkeeps p h hh.2 (hp.keeps h hh.1)⟩

end Triple

/-- Every event of a history was lawful when it happened. -/
def Lawful {F : Interface} (law : Law F) : List (Event F) → Prop
  | [] => True
  | e :: h => law h e.op ∧ Lawful law h

/-! ## Many programs over one world -/

/-- A world with actions on it, and the programs requests start. -/
structure Machine where
  F : Interface
  X : Type
  W : Type
  I : Type
  R : Type
  exec : (o : F.Op) → I → W → F.Ans o × W
  prog : R → Prog F X Unit

/-- A program under way: what asked for it, what it has done, and what is left. -/
structure Proc (M : Machine) where
  request : M.R
  hist : List (Event M.F)
  rest : Prog M.F M.X Unit

structure Sys (M : Machine) where
  world : M.W
  procs : List (Proc M)

/-- What may happen next: a request is made, a program takes an action, or something else changes the
world. A program that is never stepped again has crashed. -/
inductive Move (M : Machine) where
  | start (r : M.R)
  | step (i : Nat) (input : M.I)
  | env (f : M.W → M.W)

variable {M : Machine}

/-- The action a program takes next, and the program after it. -/
def Proc.step (p : Proc M) (input : M.I) (w : M.W) : Option (Proc M × M.W) :=
  match p.rest with
  | .act o next =>
    let r := M.exec o input w
    some (⟨p.request, ⟨o, r.1⟩ :: p.hist, next r.1⟩, r.2)
  | _ => none

def Sys.move (s : Sys M) : Move M → Sys M
  | .start r => { s with procs := s.procs ++ [⟨r, [], M.prog r⟩] }
  | .step i input =>
    match s.procs[i]? with
    | none => s
    | some p =>
      match p.step input s.world with
      | none => s
      | some (p', w) => ⟨w, s.procs.set i p'⟩
  | .env f => { s with world := f s.world }

/-- A run: the moves in order. -/
def Sys.run (s : Sys M) (ms : List (Move M)) : Sys M := ms.foldl Sys.move s

/-- Every move of a run is allowed where it is made. -/
def Guarded (allowed : Sys M → Move M → Prop) : Sys M → List (Move M) → Prop
  | _, [] => True
  | s, m :: ms => allowed s m ∧ Guarded allowed (s.move m) ms

instance Guarded.decidable (allowed : Sys M → Move M → Prop) [∀ s m, Decidable (allowed s m)] :
    (s : Sys M) → (ms : List (Move M)) → Decidable (Guarded allowed s ms)
  | _, [] => inferInstanceAs (Decidable True)
  | s, m :: ms =>
    have := Guarded.decidable allowed (s.move m) ms
    inferInstanceAs (Decidable (allowed s m ∧ Guarded allowed (s.move m) ms))

/-- The program a move steps, and the action it takes. -/
def Sys.acting (s : Sys M) : Move M → Option (Proc M × M.F.Op)
  | .step i _ =>
    (s.procs[i]?).bind fun p =>
      match p.rest with
      | .act o _ => some (p, o)
      | _ => none
  | _ => none

theorem Sys.acting_step {s : Sys M} {i : Nat} {input : M.I} {p : Proc M} {o : M.F.Op}
    {next : M.F.Ans o → Prog M.F M.X Unit} (hi : s.procs[i]? = some p) (hp : p.rest = .act o next) :
    s.acting (.step i input) = some (p, o) := by
  simp only [Sys.acting, hi, Option.bind_some, hp]

/-- What a move does, said once: it starts a program, changes the world around the programs, takes one
action of one program, or does nothing. -/
theorem Sys.move_cases (s : Sys M) (m : Move M) :
    (∃ r, m = .start r ∧ s.move m = ⟨s.world, s.procs ++ [⟨r, [], M.prog r⟩]⟩) ∨
    (∃ f, m = .env f ∧ s.move m = ⟨f s.world, s.procs⟩) ∨
    s.move m = s ∨
    ∃ i input p o next, m = .step i input ∧ s.procs[i]? = some p ∧ p.rest = .act o next ∧
      s.move m = ⟨(M.exec o input s.world).2,
        s.procs.set i ⟨p.request, ⟨o, (M.exec o input s.world).1⟩ :: p.hist, next (M.exec o input s.world).1⟩⟩ := by
  cases m with
  | start r => exact .inl ⟨r, rfl, rfl⟩
  | env f => exact .inr (.inl ⟨f, rfl, rfl⟩)
  | step i input =>
    cases hi : s.procs[i]? with
    | none => exact .inr (.inr (.inl (by simp only [Sys.move, hi])))
    | some p =>
      cases hp : p.rest with
      | done a => exact .inr (.inr (.inl (by simp only [Sys.move, hi, Proc.step, hp])))
      | fail e => exact .inr (.inr (.inl (by simp only [Sys.move, hi, Proc.step, hp])))
      | act o next =>
        refine .inr (.inr (.inr ⟨i, input, p, o, next, rfl, hi, hp, ?_⟩))
        simp only [Sys.move, hi, Proc.step, hp]

@[simp] theorem run_nil (s : Sys M) : s.run [] = s := rfl

@[simp] theorem run_cons (s : Sys M) (m : Move M) (ms : List (Move M)) :
    s.run (m :: ms) = (s.move m).run ms := rfl

/-- What every allowed move preserves holds after every guarded run. -/
theorem invariant {allowed : Sys M → Move M → Prop} {Inv : Sys M → Prop}
    (hmove : ∀ s m, Inv s → allowed s m → Inv (s.move m)) {s : Sys M} (hs : Inv s) {ms : List (Move M)}
    (hg : Guarded allowed s ms) : Inv (s.run ms) := by
  induction ms generalizing s with
  | nil => exact hs
  | cons m ms ih => exact ih (hmove s m hs hg.1) hg.2

/-! ## One program alone -/

section Reaches

variable {given : M.I → Prop} {P : M.F.Op → Prop} {A B : Type}

/-- Run alone from a world, on inputs of a kind and whatever they are, a program comes to an action that
meets `P`. -/
inductive Reaches (given : M.I → Prop) (P : M.F.Op → Prop) : Prog M.F M.X A → M.W → Prop
  | here {o : M.F.Op} {next : M.F.Ans o → Prog M.F M.X A} {w : M.W} (ho : P o) : Reaches given P (.act o next) w
  | step {o : M.F.Op} {next : M.F.Ans o → Prog M.F M.X A} {w : M.W}
      (hn : ∀ i, given i → Reaches given P (next (M.exec o i w).1) (M.exec o i w).2) : Reaches given P (.act o next) w

theorem Reaches.bind {p : Prog M.F M.X A} {f : A → Prog M.F M.X B} {w : M.W} (hp : Reaches given P p w) :
    Reaches given P (p >>= f) w := by
  induction hp with
  | here ho => exact .here ho
  | step _ ih => exact .step ih

theorem Reaches.attempt {p : Prog M.F M.X A} {handler : M.X → Prog M.F M.X A} {w : M.W}
    (hp : Reaches given P p w) : Reaches given P (p.attempt handler) w := by
  induction hp with
  | here ho => exact .here ho
  | step _ ih => exact .step ih

end Reaches

section Ends

variable {can : (o : M.F.Op) → M.F.Ans o → Prop} {A B : Type}

/-- Run alone from a world and a history, a program ends in `Q`: on inputs whose answers are of a kind, and whatever they
are otherwise. -/
inductive Ends (can : (o : M.F.Op) → M.F.Ans o → Prop) (Q : Except M.X A → M.W → List (Event M.F) → Prop) :
    Prog M.F M.X A → M.W → List (Event M.F) → Prop
  | done {a : A} {w : M.W} {h : List (Event M.F)} (hq : Q (.ok a) w h) : Ends can Q (.done a) w h
  | fail {e : M.X} {w : M.W} {h : List (Event M.F)} (hq : Q (.error e) w h) : Ends can Q (.fail e) w h
  | act {o : M.F.Op} {next : M.F.Ans o → Prog M.F M.X A} {w : M.W} {h : List (Event M.F)}
      (hn : ∀ i, can o (M.exec o i w).1 →
        Ends can Q (next (M.exec o i w).1) (M.exec o i w).2 (⟨o, (M.exec o i w).1⟩ :: h)) : Ends can Q (.act o next) w h

variable {Q Q' : Except M.X A → M.W → List (Event M.F) → Prop} {w : M.W} {h : List (Event M.F)}

theorem Ends.mono {p : Prog M.F M.X A} (hp : Ends can Q p w h) (hQ : ∀ r w h, Q r w h → Q' r w h) :
    Ends can Q' p w h := by
  induction hp with
  | done hq => exact .done (hQ _ _ _ hq)
  | fail hq => exact .fail (hQ _ _ _ hq)
  | act _ ih => exact .act ih

theorem Ends.bind {R : Except M.X B → M.W → List (Event M.F) → Prop} {p : Prog M.F M.X A} {f : A → Prog M.F M.X B}
    (hp : Ends can Q p w h) (hf : ∀ a w h, Q (.ok a) w h → Ends can R (f a) w h)
    (he : ∀ e w h, Q (.error e) w h → R (.error e) w h) : Ends can R (p >>= f) w h := by
  induction hp with
  | done hq => exact hf _ _ _ hq
  | fail hq => exact .fail (he _ _ _ hq)
  | act _ ih => exact .act ih

theorem Ends.attempt {p : Prog M.F M.X A} {handler : M.X → Prog M.F M.X A} (hp : Ends can Q p w h)
    (ho : ∀ a w h, Q (.ok a) w h → Q' (.ok a) w h)
    (he : ∀ e w h, Q (.error e) w h → Ends can Q' (handler e) w h) : Ends can Q' (p.attempt handler) w h := by
  induction hp with
  | done hq => exact .done (ho _ _ _ hq)
  | fail hq => exact he _ _ _ hq
  | act _ ih => exact .act ih

theorem Ends.and {p : Prog M.F M.X A} (hp : Ends can Q p w h) (hq : Ends can Q' p w h) :
    Ends can (fun r w h => Q r w h ∧ Q' r w h) p w h := by
  induction hp with
  | done hp =>
    cases hq with
    | done hq => exact .done ⟨hp, hq⟩
  | fail hp =>
    cases hq with
    | fail hq => exact .fail ⟨hp, hq⟩
  | act _ ih =>
    cases hq with
    | act hq => exact .act fun i hi => ih i hi (hq i hi)

/-- What a program keeps of its history, whatever it is answered, it keeps when it is run alone. -/
theorem Keeps.ends {law : Law M.F} {R : A → List (Event M.F) → Prop} {E : M.X → List (Event M.F) → Prop}
    {p : Prog M.F M.X A} (hp : Keeps law can R E p h) (w : M.W) :
    Ends can (fun r _ h => (∀ a, r = .ok a → R a h) ∧ ∀ e, r = .error e → E e h) p w h := by
  induction p generalizing w h with
  | done a => exact .done ⟨fun b hb => Except.ok.inj hb ▸ hp, fun e he => (nomatch he)⟩
  | fail e => exact .fail ⟨fun a ha => (nomatch ha), fun x hx => Except.error.inj hx ▸ hp⟩
  | act o next ih => exact .act fun i hi => ih _ (hp.2 _ hi) _

/-- What every action keeps of the world is kept to the end. -/
theorem Ends.world {I : M.W → Prop} (hI : ∀ o i w, I w → I (M.exec o i w).2) (p : Prog M.F M.X A) (hw : I w) :
    Ends can (fun _ w _ => I w) p w h := by
  induction p generalizing w h with
  | done a => exact .done hw
  | fail e => exact .fail hw
  | act o next ih => exact .act fun i _ => ih _ (hI o i w hw)

end Ends

/-! ## Laws in a system -/

section Lawful

variable {law : M.R → Law M.F} {can : (o : M.F.Op) → M.F.Ans o → Prop}

/-- Every program under way has kept its law, and will. -/
def Obeying (law : M.R → Law M.F) (can : (o : M.F.Op) → M.F.Ans o → Prop) (s : Sys M) : Prop :=
  ∀ p ∈ s.procs, Lawful (law p.request) p.hist ∧
    Keeps (law p.request) can (fun _ _ => True) (fun _ _ => True) p.rest p.hist

theorem obeying_move (hcan : ∀ o input w, can o (M.exec o input w).1)
    (hprog : ∀ r, Keeps (law r) can (fun _ _ => True) (fun _ _ => True) (M.prog r) [])
    {s : Sys M} (hs : Obeying law can s) (m : Move M) : Obeying law can (s.move m) := by
  rcases s.move_cases m with ⟨r, -, h⟩ | ⟨f, -, h⟩ | h | ⟨i, input, p, o, next, -, hi, hp, h⟩
  · rw [h]
    intro q hq
    rcases List.mem_append.1 hq with hq | hq
    · exact hs q hq
    · rw [List.mem_singleton] at hq
      subst hq
      exact ⟨trivial, hprog r⟩
  · rw [h]; exact hs
  · rw [h]; exact hs
  · rw [h]
    intro q hq
    have hk := hs p (List.mem_of_getElem? hi)
    rw [hp] at hk
    rcases List.mem_or_eq_of_mem_set hq with hq | hq
    · exact hs q hq
    · subst hq
      exact ⟨⟨hk.2.1, hk.1⟩, hk.2.2 _ (hcan o input s.world)⟩

end Lawful

/-! ## Sums over all histories -/

section Tally

variable {F : Interface}

/-- A count over one history. -/
def tally (f : Event F → Nat) (h : List (Event F)) : Nat := (h.map f).sum

@[simp] theorem tally_nil (f : Event F → Nat) : tally f [] = 0 := rfl

@[simp] theorem tally_cons (f : Event F → Nat) (e : Event F) (h : List (Event F)) :
    tally f (e :: h) = f e + tally f h := by simp [tally]

/-- A count that is not zero was made by some event. -/
theorem exists_of_tally_pos {f : Event F → Nat} {h : List (Event F)} (hp : 0 < tally f h) :
    ∃ e ∈ h, 0 < f e := by
  induction h with
  | nil => exact absurd hp (by simp)
  | cons e h ih =>
    rw [tally_cons] at hp
    by_cases he : 0 < f e
    · exact ⟨e, List.mem_cons_self, he⟩
    · obtain ⟨e', hm, he'⟩ := ih (by omega)
      exact ⟨e', List.mem_cons_of_mem _ hm, he'⟩

end Tally

/-- A count over every history, by what asked for it. -/
def total (f : M.R → Event M.F → Nat) (s : Sys M) : Nat :=
  (s.procs.map fun p => tally (f p.request) p.hist).sum

theorem sum_set (xs : List Nat) {i x : Nat} (hi : xs[i]? = some x) (y : Nat) :
    (xs.set i (y + x)).sum = y + xs.sum := by
  induction xs generalizing i with
  | nil => cases hi
  | cons z xs ih =>
    cases i with
    | zero => cases hi; simp only [List.set_cons_zero, List.sum_cons]; omega
    | succ i =>
      have h := ih (i := i) hi
      simp only [List.set_cons_succ, List.sum_cons, h]
      omega

/-- An action adds its own event's share; nothing else changes a total. -/
theorem total_step (f : M.R → Event M.F → Nat) {s : Sys M} {i : Nat} {p : Proc M} (hi : s.procs[i]? = some p)
    (w : M.W) (e : Event M.F) (rest : Prog M.F M.X Unit) :
    total f ⟨w, s.procs.set i ⟨p.request, e :: p.hist, rest⟩⟩ = f p.request e + total f s := by
  have hx : (s.procs.map fun p => tally (f p.request) p.hist)[i]? = some (tally (f p.request) p.hist) := by
    rw [List.getElem?_map, hi]; rfl
  simp only [total, List.map_set, tally_cons]
  exact sum_set _ hx _

theorem total_start (f : M.R → Event M.F → Nat) (s : Sys M) (r : M.R) :
    total f ⟨s.world, s.procs ++ [⟨r, [], M.prog r⟩]⟩ = total f s := by
  simp [total]

/-- A bound that holds in every history holds of the totals. -/
theorem total_le {f g : M.R → Event M.F → Nat} {s : Sys M}
    (h : ∀ p ∈ s.procs, tally (f p.request) p.hist ≤ tally (g p.request) p.hist) : total f s ≤ total g s :=
  List.sum_le_sum h

end Process
