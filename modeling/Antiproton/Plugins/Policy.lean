import Antiproton.Core.Types

/-!
# Antiproton.Plugins.Policy

What a mount may do without a human (`policyFor`, `stricter`, `policyKeyOf`, `callSideEffects` and
`refusalOf` in `src/plugins/types.ts`).

A policy's `tools` is an object literal, and a lookup in it also finds what every object inherits under
a name such as `constructor`: a value that is no decision, and is no stricter or looser than one. A
`Ruling` is what a lookup gives, so that what follows from such a name can be said.

* `stricter_le`, `le_stricter`: the stricter of two decisions is their maximum.
* `policyFor_mono`: stricter defaults never loosen a decision.
-/

namespace Antiproton

/-- A decision, or an inherited value that is none. -/
inductive Ruling where
  | of (d : PolicyDecision)
  | inherited
deriving DecidableEq, Repr

/-- The names every object answers to without having them. -/
def inheritedNames : List String :=
  ["constructor", "__defineGetter__", "__defineSetter__", "hasOwnProperty", "__lookupGetter__",
    "__lookupSetter__", "isPrototypeOf", "propertyIsEnumerable", "toString", "valueOf", "__proto__",
    "toLocaleString"]

/-- `STRICTNESS`. -/
def strictness : PolicyDecision → Nat
  | .allow => 0
  | .approval => 1
  | .deny => 2

/-- `STRICTNESS[b] > STRICTNESS[a]`, false of a value that has no strictness. -/
def exceeds : Ruling → Ruling → Bool
  | .of b, .of a => strictness a < strictness b
  | _, _ => false

/-- `stricter`. -/
def stricter (a b : Ruling) : Ruling := if exceeds b a then b else a

/-- What `policyFor` reads of a policy. -/
structure PolicyView where
  read : Option PolicyDecision
  write : Option PolicyDecision
  entry : String → Option Ruling

/-- A lookup in an object literal: its own entry, or what it inherits. -/
def lookup (tools : List (String × Ruling)) (name : String) : Option Ruling :=
  match tools.find? fun e => e.1 == name with
  | some e => some e.2
  | none => if inheritedNames.contains name then some .inherited else none

def MountPolicy.entries (tools : List (String × PolicyDecision)) : List (String × Ruling) :=
  tools.map fun e => (e.1, .of e.2)

def MountPolicy.view (p : MountPolicy) : PolicyView :=
  ⟨p.read, p.write, fun name => p.tools.bind fun tools => lookup (entries tools) name⟩

/-- A policy, or none, as it is read. -/
def viewOf (p : Option MountPolicy) : PolicyView := (p.map (·.view)).getD ⟨none, none, fun _ => none⟩

def PolicyView.half (p : PolicyView) : Side → Option PolicyDecision
  | .write => p.write
  | .read => p.read

/-- What a policy says of a name by default: its entry, or else its half. -/
def PolicyView.fallback (p : PolicyView) (name : String) (side : Side) : Option Ruling :=
  (p.entry name).or ((p.half side).map .of)

/-- `policyFor`. -/
def policyFor (policy : PolicyView) (tool : String) (side : Side) (defaults : PolicyView) : Ruling :=
  match policy.entry tool with
  | some own => own
  | none =>
    let mount : Ruling := .of ((policy.half side).getD .allow)
    match defaults.fallback tool side with
    | some fallback => if exceeds fallback mount then fallback else mount
    | none => mount

/-! ## A plugin's hooks -/

/-- What a plugin's synchronous hook does: throws, or answers. -/
inductive Hook where
  | threw
  | undefined
  | text (s : String)
  | other
deriving DecidableEq, Repr

/-- A hook a plugin may have, asked of a tool and its arguments. -/
abbrev CallHook := Option (String → Json → Hook)

/-- What `policyKeyOf` answers: no second name, one the plugin could not give, or one. -/
inductive PolicyKey where
  | none
  | failed
  | named (key : String)
deriving DecidableEq, Repr

/-- `policyKeyOf`. -/
def policyKeyOf (policyKey : CallHook) (tool : String) (args : Json) : PolicyKey :=
  match policyKey with
  | none => .none
  | some hook =>
    match hook tool args with
    | .threw => .failed
    | .undefined => .none
    | .text key => if key = tool then .none else if key = "" then .failed else .named key
    | .other => .failed

/-- `REFUSE_FAILED`. -/
def refuseFailed : String := "this call is refused: the plugin could not say whether it may run"

/-- `REFUSE_REASON_BYTES`. -/
def refuseReasonBytes : Nat := 300

/-- `REFUSE_TOO_LONG`. -/
def refuseTooLong : String :=
  s!"this call is refused: the plugin's reason was longer than {refuseReasonBytes} characters"

/-- `refusalOf`. -/
def refusalOf (refuse : CallHook) (tool : String) (args : Json) : Option String :=
  match refuse with
  | none => none
  | some hook =>
    match hook tool args with
    | .undefined => none
    | .text why =>
      if why = "" then some refuseFailed
      else if refuseReasonBytes < (Js.js why).length then some refuseTooLong
      else some why
    | _ => some refuseFailed

/-- `callSideEffects`. -/
def callSideEffects (classify : CallHook) (tool : String) (args : Json) : Side → Side
  | .read => .read
  | .write =>
    match classify with
    | none => .write
    | some hook => if hook tool args = .text "read" then .read else .write

/-! ## The order of decisions -/

instance : LE PolicyDecision := ⟨fun a b => strictness a ≤ strictness b⟩

instance : DecidableLE PolicyDecision := fun a b => inferInstanceAs (Decidable (strictness a ≤ strictness b))

theorem strictness_inj {a b : PolicyDecision} (h : strictness a = strictness b) : a = b := by
  cases a <;> cases b <;> first | rfl | cases h

/-- No stricter than, of two decisions; a value that is none compares with nothing. -/
def Ruling.le : Ruling → Ruling → Prop
  | .of a, .of b => a ≤ b
  | _, _ => False

instance : LE Ruling := ⟨Ruling.le⟩

theorem Ruling.of_le {a b : PolicyDecision} : Ruling.of a ≤ .of b ↔ strictness a ≤ strictness b := Iff.rfl

/-- The stricter of two decisions, as the decision it is. -/
theorem stricter_of (a b : PolicyDecision) :
    stricter (.of a) (.of b) = .of (if strictness a < strictness b then b else a) := by
  simp only [stricter, exceeds, decide_eq_true_iff]
  split <;> rfl

theorem le_stricter (a b : PolicyDecision) :
    Ruling.of a ≤ stricter (.of a) (.of b) ∧ Ruling.of b ≤ stricter (.of a) (.of b) := by
  rw [stricter_of, Ruling.of_le, Ruling.of_le]
  split <;> constructor <;> omega

theorem stricter_eq_allow {a b : PolicyDecision} :
    stricter (.of a) (.of b) = .of .allow ↔ a = .allow ∧ b = .allow := by
  cases a <;> cases b <;> decide

theorem stricter_eq_deny {a b : PolicyDecision} :
    stricter (.of a) (.of b) = .of .deny ↔ a = .deny ∨ b = .deny := by
  cases a <;> cases b <;> decide

/-- An own name: one that no object inherits. -/
def OwnName (name : String) : Prop := name ∉ inheritedNames

instance (name : String) : Decidable (OwnName name) := inferInstanceAs (Decidable (name ∉ inheritedNames))

theorem lookup_of {tools : List (String × Ruling)} {name : String}
    (ht : ∀ e ∈ tools, e.1 = name → ∃ d, e.2 = .of d) (hn : OwnName name) {r : Ruling}
    (h : lookup tools name = some r) : ∃ d, r = .of d := by
  unfold lookup at h
  cases hf : tools.find? fun e => e.1 == name with
  | some e =>
    rw [hf] at h
    cases h
    have hname := List.find?_some hf
    exact ht e (List.mem_of_find?_eq_some hf) (beq_iff_eq.1 hname)
  | none =>
    rw [hf] at h
    simp only [List.contains_iff_mem] at h
    rw [if_neg hn] at h
    cases h

/-- A policy that rules on its own names by decisions. -/
def PolicyView.Decides (p : PolicyView) (name : String) : Prop := ∀ r, p.entry name = some r → ∃ d, r = .of d

theorem viewOf_decides (p : Option MountPolicy) {name : String} (hn : OwnName name) :
    (viewOf p).Decides name := by
  intro r hr
  cases p with
  | none => cases hr
  | some p =>
    simp only [viewOf, Option.map_some, Option.getD_some, MountPolicy.view] at hr
    obtain ⟨tools, -, hl⟩ := Option.bind_eq_some_iff.1 hr
    refine lookup_of ?_ hn hl
    intro e he _
    obtain ⟨e', -, rfl⟩ := List.mem_map.1 he
    exact ⟨_, rfl⟩

/-- Against a mount's half, a default that is a decision counts where it is the stricter. -/
theorem policyFor_fallback {policy defaults : PolicyView} {tool : String} {side : Side}
    (ho : policy.entry tool = none) {a : PolicyDecision}
    (hf : defaults.fallback tool side = some (.of a)) :
    policyFor policy tool side defaults = stricter (.of ((policy.half side).getD .allow)) (.of a) := by
  simp only [policyFor, ho, hf, stricter]

theorem PolicyView.Decides.fallback {p : PolicyView} {name : String} (hp : p.Decides name) {side : Side}
    {r : Ruling} (h : p.fallback name side = some r) : ∃ d, r = .of d := by
  unfold PolicyView.fallback at h
  cases he : p.entry name with
  | some r' => rw [he] at h; cases h; exact hp _ he
  | none =>
    rw [he] at h
    obtain ⟨d, -, rfl⟩ := Option.map_eq_some_iff.1 h
    exact ⟨d, rfl⟩

/-- On its own names a policy and its defaults give a decision. -/
theorem policyFor_of {policy defaults : PolicyView} {tool : String} (hp : policy.Decides tool)
    (hd : defaults.Decides tool) (side : Side) : ∃ d, policyFor policy tool side defaults = .of d := by
  cases ho : policy.entry tool with
  | some own => simp only [policyFor, ho]; exact hp own ho
  | none =>
    cases hf : defaults.fallback tool side with
    | none => simp only [policyFor, ho, hf]; exact ⟨_, rfl⟩
    | some r =>
      obtain ⟨a, rfl⟩ := hd.fallback hf
      rw [policyFor_fallback ho hf, stricter_of]
      exact ⟨_, rfl⟩

/-- Defaults that are at least as strict on every call: what they say of it, where they say anything. -/
def PolicyView.NoLooser (d d' : PolicyView) : Prop :=
  ∀ name side a, d.fallback name side = some (.of a) → ∃ b, d'.fallback name side = some (.of b) ∧ a ≤ b

/-- Making a plugin's defaults stricter never makes a decision looser. -/
theorem policyFor_mono {policy d d' : PolicyView} (h : d.NoLooser d') {tool : String} {side : Side}
    (hp : policy.Decides tool) (hd : d.Decides tool) (hd' : d'.Decides tool) :
    policyFor policy tool side d ≤ policyFor policy tool side d' := by
  cases ho : policy.entry tool with
  | some own =>
    obtain ⟨o, rfl⟩ := hp own ho
    simp only [policyFor, ho]
    exact Ruling.of_le.2 le_rfl
  | none =>
    cases hf : d.fallback tool side with
    | none =>
      have hm : policyFor policy tool side d = .of ((policy.half side).getD .allow) := by
        simp only [policyFor, ho, hf]
      rw [hm]
      cases hf' : d'.fallback tool side with
      | none => simp only [policyFor, ho, hf']; exact Ruling.of_le.2 le_rfl
      | some r =>
        obtain ⟨b, rfl⟩ := hd'.fallback hf'
        rw [policyFor_fallback ho hf']
        exact (le_stricter _ b).1
    | some r =>
      obtain ⟨a, rfl⟩ := hd.fallback hf
      obtain ⟨b, hf', hab⟩ := h tool side a hf
      rw [policyFor_fallback ho hf, policyFor_fallback ho hf', stricter_of, stricter_of, Ruling.of_le]
      have hab : strictness a ≤ strictness b := hab
      split <;> split <;> omega

end Antiproton
