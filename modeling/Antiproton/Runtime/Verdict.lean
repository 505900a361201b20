import Antiproton.Plugins.Bridge

/-!
# Antiproton.Runtime.Verdict

The gateway's verdict on a call (`#invoke` in `src/runtime/gateway.ts`): the tool's own decision, the
policy key's, the floor under an unlisted write's key, `confirm`, and an approval.

* `decided_of`: on own names the two decisions combine to the stricter.
* `unlisted_floor`: no default and no half takes an unlisted write's key below `approval`.
* `verdict_tightens`: every source of the verdict tightens it, but for an approval, which lifts a hold.
-/

namespace Antiproton

/-- `plugin.defaultPolicy`, with the entry for a bridge's unlisted writes at least `approval`. -/
def bridgeDefaults (defaultPolicy : Option MountPolicy) (unlistedWriteKey : String) : PolicyView :=
  let d := viewOf defaultPolicy
  let floor := stricter ((d.entry unlistedWriteKey).getD (.of .approval)) (.of .approval)
  let tools := MountPolicy.entries ((defaultPolicy.bind (·.tools)).getD [])
  { d with entry := lookup ((unlistedWriteKey, floor) :: tools.filter fun e => e.1 ≠ unlistedWriteKey) }

/-- What a call's verdict is computed from. -/
structure CallPolicy where
  policy : Option MountPolicy
  defaultPolicy : Option MountPolicy
  bridge : Option BridgeDecl
  tool : String
  key : PolicyKey
  side : Side
  bridged : bridge.isSome → tool = bridgeTool

namespace CallPolicy

/-- The tool's own decision. -/
def own (c : CallPolicy) : Ruling := policyFor (viewOf c.policy) c.tool c.side (viewOf c.defaultPolicy)

/-- The defaults a policy key is decided under. -/
def keyDefaults (c : CallPolicy) : PolicyView :=
  match c.bridge with
  | some bridge => bridgeDefaults c.defaultPolicy bridge.unlistedWriteKey
  | none => viewOf c.defaultPolicy

/-- The key's decision, where the call has a second name. -/
def keyRuling (c : CallPolicy) : Option Ruling :=
  match c.key with
  | .none => none
  | .failed => some (.of .approval)
  | .named key => if key = c.tool then none else some (policyFor (viewOf c.policy) key c.side c.keyDefaults)

def decided (c : CallPolicy) : Ruling :=
  match c.keyRuling with
  | none => c.own
  | some key => stricter c.own key

def verdict (c : CallPolicy) (confirm approved : Bool) : Ruling :=
  if approved then (if c.decided = .of .deny then .of .deny else .of .allow)
  else if confirm then stricter c.decided (.of .approval)
  else c.decided

/-- A call whose tool and key are names no object inherits. -/
def OwnNames (c : CallPolicy) : Prop := OwnName c.tool ∧ ∀ key, c.key = .named key → OwnName key

end CallPolicy

section Floor

variable {d : Option MountPolicy} {u : String}

theorem stricter_approval_le (r : Ruling) (h : ∃ a, r = .of a) :
    ∃ a, stricter r (.of .approval) = .of a ∧ PolicyDecision.approval ≤ a := by
  obtain ⟨a, rfl⟩ := h
  cases a <;> exact ⟨_, rfl, by decide⟩

/-- The floor is a decision, and at least `approval`. -/
theorem bridgeDefaults_floor (hu : OwnName u) :
    ∃ a, (bridgeDefaults d u).entry u = some (.of a) ∧ PolicyDecision.approval ≤ a := by
  have hd : ∃ a, ((viewOf d).entry u).getD (.of .approval) = .of a := by
    cases he : (viewOf d).entry u with
    | none => exact ⟨_, rfl⟩
    | some r => exact viewOf_decides d hu r he
  obtain ⟨a, ha, hle⟩ := stricter_approval_le _ hd
  refine ⟨a, ?_, hle⟩
  simp only [bridgeDefaults, lookup, List.find?_cons, beq_self_eq_true]
  exact congrArg some ha

theorem bridgeDefaults_decides {name : String} (hn : OwnName name) : (bridgeDefaults d u).Decides name := by
  intro r hr
  refine lookup_of ?_ hn hr
  intro e he hname
  rcases List.mem_cons.1 he with rfl | he
  · obtain rfl : u = name := hname
    obtain ⟨a, ha, -⟩ := bridgeDefaults_floor (d := d) hn
    simp only [bridgeDefaults, lookup, List.find?_cons, beq_self_eq_true, Option.some.injEq] at ha
    exact ⟨a, ha⟩
  · obtain ⟨e', -, rfl⟩ := List.mem_map.1 (List.mem_of_mem_filter he)
    exact ⟨_, rfl⟩

end Floor

/-- No default and no half of a policy takes an unlisted write's key below `approval`: only the mount's
own entry for it does. -/
theorem unlisted_floor {p d : Option MountPolicy} {u : String} {side : Side} (hu : OwnName u)
    (hne : (viewOf p).entry u ≠ some (.of .allow)) :
    policyFor (viewOf p) u side (bridgeDefaults d u) ≠ .of .allow := by
  cases ho : (viewOf p).entry u with
  | some own =>
    simp only [policyFor, ho]
    rintro rfl
    exact hne ho
  | none =>
    obtain ⟨a, hf, ha⟩ := bridgeDefaults_floor (d := d) hu
    have hfall : (bridgeDefaults d u).fallback u side = some (.of a) := by
      simp only [PolicyView.fallback, hf, Option.some_or]
    rw [policyFor_fallback ho hfall]
    intro h
    obtain ⟨-, rfl⟩ := stricter_eq_allow.1 h
    exact absurd ha (by decide)

namespace CallPolicy

variable {c : CallPolicy}

theorem own_of (h : OwnName c.tool) : ∃ d, c.own = .of d :=
  policyFor_of (viewOf_decides _ h) (viewOf_decides _ h) _

theorem keyDefaults_decides (h : c.OwnNames) {key : String} (hk : c.key = .named key) :
    c.keyDefaults.Decides key := by
  unfold keyDefaults
  cases c.bridge with
  | none => exact viewOf_decides _ (h.2 key hk)
  | some b => exact bridgeDefaults_decides (h.2 key hk)

theorem keyRuling_of (h : c.OwnNames) {r : Ruling} (hr : c.keyRuling = some r) : ∃ d, r = .of d := by
  unfold keyRuling at hr
  cases hk : c.key with
  | none => rw [hk] at hr; cases hr
  | failed => rw [hk] at hr; cases hr; exact ⟨_, rfl⟩
  | named key =>
    rw [hk] at hr
    dsimp only at hr
    split at hr
    · cases hr
    · cases hr
      exact policyFor_of (viewOf_decides _ (h.2 key hk)) (keyDefaults_decides h hk) _

/-- On own names both decisions are decisions, and combine to the stricter. -/
theorem decided_of (h : c.OwnNames) :
    ∃ a, c.own = .of a ∧
      ((c.keyRuling = none ∧ c.decided = .of a) ∨
        ∃ b, c.keyRuling = some (.of b) ∧ c.decided = stricter (.of a) (.of b)) := by
  obtain ⟨a, ha⟩ := own_of h.1
  refine ⟨a, ha, ?_⟩
  cases hk : c.keyRuling with
  | none => exact .inl ⟨rfl, by simp only [decided, hk, ha]⟩
  | some r =>
    obtain ⟨b, rfl⟩ := keyRuling_of h hk
    exact .inr ⟨b, rfl, by simp only [decided, hk, ha]⟩

/-- The combined decision, as a decision. -/
theorem decided_decision (h : c.OwnNames) : ∃ e, c.decided = .of e := by
  obtain ⟨a, -, ⟨-, hd⟩ | ⟨b, -, hd⟩⟩ := decided_of h
  · exact ⟨a, hd⟩
  · exact ⟨_, hd.trans (stricter_of a b)⟩

theorem decided_allow (h : c.OwnNames) (hd : c.decided = .of .allow) :
    c.own = .of .allow ∧ ∀ r, c.keyRuling = some r → r = .of .allow := by
  obtain ⟨a, ha, ⟨hk, he⟩ | ⟨b, hk, he⟩⟩ := decided_of h
  · rw [he] at hd
    refine ⟨ha.trans hd, fun r hr => ?_⟩
    rw [hk] at hr
    cases hr
  · rw [he] at hd
    obtain ⟨rfl, rfl⟩ := stricter_eq_allow.1 hd
    refine ⟨ha, fun r hr => ?_⟩
    rw [hk] at hr
    exact (Option.some.inj hr).symm

theorem decided_deny (h : c.OwnNames) (hd : c.own = .of .deny ∨ c.keyRuling = some (.of .deny)) :
    c.decided = .of .deny := by
  obtain ⟨a, ha, ⟨hk, he⟩ | ⟨b, hk, he⟩⟩ := decided_of h
  · rcases hd with hd | hd
    · rw [he, ← ha, hd]
    · rw [hk] at hd; cases hd
  · rw [he, stricter_eq_deny]
    rcases hd with hd | hd
    · rw [ha] at hd; exact .inl (Ruling.of.inj hd)
    · rw [hk] at hd; exact .inr (Ruling.of.inj (Option.some.inj hd))

/-- A bridged write no row lists is not let through unless the mount's own entry for its key says so. -/
theorem decided_unlisted (h : c.OwnNames) {b : BridgeDecl} (hb : c.bridge = some b)
    (hk : c.key = .named b.unlistedWriteKey)
    (hne : (viewOf c.policy).entry b.unlistedWriteKey ≠ some (.of .allow)) : c.decided ≠ .of .allow := by
  intro hd
  have htool : b.unlistedWriteKey ≠ c.tool := by
    rw [c.bridged (by rw [hb]; rfl)]
    exact b.unlisted_ne_bridgeTool
  have hr : c.keyRuling = some (policyFor (viewOf c.policy) b.unlistedWriteKey c.side
      (bridgeDefaults c.defaultPolicy b.unlistedWriteKey)) := by
    simp only [keyRuling, hk, if_neg htool, keyDefaults, hb]
  exact unlisted_floor (h.2 _ hk) hne ((decided_allow h hd).2 _ hr)

/-- What each source of a verdict does to it. -/
structure Tightens (c : CallPolicy) : Prop where
  /-- Let through without a person, both decisions let it through. -/
  allow : ∀ confirm, c.verdict confirm false = .of .allow →
    c.own = .of .allow ∧ ∀ r, c.keyRuling = some r → r = .of .allow
  /-- Either refusal refuses, whatever `confirm` or an approval says. -/
  deny : c.own = .of .deny ∨ c.keyRuling = some (.of .deny) →
    ∀ confirm approved, c.verdict confirm approved = .of .deny
  confirm : ∀ approved, c.verdict true approved = .of .allow → c.verdict false approved = .of .allow
  /-- An approval lifts a hold and changes nothing else. -/
  approved : ∀ confirm, c.verdict confirm true =
    if c.verdict confirm false = .of .approval then .of .allow else c.verdict confirm false
  /-- Without an approval, only the mount's own entry lets through a bridged write no row lists. -/
  unlisted : ∀ b, c.bridge = some b → c.key = .named b.unlistedWriteKey →
    (viewOf c.policy).entry b.unlistedWriteKey ≠ some (.of .allow) →
    ∀ confirm, c.verdict confirm false ≠ .of .allow
  stricterDefaults : ∀ d', (viewOf c.defaultPolicy).NoLooser (viewOf d') →
    c.own ≤ policyFor (viewOf c.policy) c.tool c.side (viewOf d')

/-- The verdict only ever tightens, but for an approval, which lifts a hold. -/
theorem verdict_tightens (h : c.OwnNames) : c.Tightens := by
  obtain ⟨e, he⟩ := decided_decision h
  have hallow : ∀ confirm, c.verdict confirm false = .of .allow → c.decided = .of .allow := by
    intro confirm hv
    cases confirm with
    | false => exact hv
    | true =>
      simp only [verdict, Bool.false_eq_true, if_false, if_true, he] at hv
      exact absurd (stricter_eq_allow.1 hv).2 (by decide)
  refine ⟨fun confirm hv => decided_allow h (hallow confirm hv), fun hd confirm approved => ?_,
    fun approved hv => ?_, fun confirm => ?_,
    fun b hb hk hne confirm hv => decided_unlisted h hb hk hne (hallow confirm hv), fun d' hd => ?_⟩
  · have hd := decided_deny h hd
    cases confirm <;> cases approved <;> simp [verdict, hd, stricter, exceeds, strictness]
  · cases approved with
    | false => exact hallow true hv
    | true => exact hv
  · cases confirm <;> cases e <;> simp [verdict, he, stricter, exceeds, strictness]
  · exact policyFor_mono hd (viewOf_decides _ h.1) (viewOf_decides _ h.1) (viewOf_decides _ h.1)

end CallPolicy

/-- A bridge with no rows: every write is unlisted. -/
def rowlessBridge : BridgeDecl := ⟨[], "unlisted_write", none, none, by decide, by decide⟩

/-- A write through it, on a mount with no policy. -/
def unlistedWrite : CallPolicy where
  policy := none
  defaultPolicy := none
  bridge := some rowlessBridge
  tool := bridgeTool
  key := .named rowlessBridge.unlistedWriteKey
  side := .write
  bridged := fun _ => rfl

theorem verdict_tightens_unlistedWrite : unlistedWrite.Tightens := by
  refine CallPolicy.verdict_tightens ⟨by decide, fun key hk => ?_⟩
  cases hk
  decide

/-- Approved, an unlisted write is let through though the mount has no entry for its key. -/
theorem unlistedWrite_approved :
    (viewOf unlistedWrite.policy).entry rowlessBridge.unlistedWriteKey ≠ some (.of .allow) ∧
      unlistedWrite.verdict false true = .of .allow := by
  decide

/-- A tool under an inherited name, on a mount whose policy has `tools`: the lookup's answer is neither
`approval` nor `deny`, whatever the halves and the defaults say, and `confirm` does not hold it. -/
theorem verdict_inherited {c : CallPolicy} {p : MountPolicy} {tools : List (String × PolicyDecision)}
    (hp : c.policy = some p) (ht : p.tools = some tools) (hn : c.tool ∈ inheritedNames)
    (hnone : ∀ e ∈ tools, e.1 ≠ c.tool) (hk : c.key = .none) (confirm : Bool) :
    c.verdict confirm false = .inherited := by
  have hfind : (MountPolicy.entries tools).find? (fun e => e.1 == c.tool) = none := by
    rw [List.find?_eq_none]
    intro e he
    obtain ⟨e', he', rfl⟩ := List.mem_map.1 he
    simpa using hnone e' he'
  have hentry : (viewOf c.policy).entry c.tool = some .inherited := by
    simp only [viewOf, hp, Option.map_some, Option.getD_some, MountPolicy.view, ht, Option.bind_some, lookup,
      hfind, List.contains_iff_mem, hn, if_true]
  have hown : c.own = .inherited := by simp only [CallPolicy.own, policyFor, hentry]
  have hdec : c.decided = .inherited := by simp only [CallPolicy.decided, CallPolicy.keyRuling, hk, hown]
  cases confirm <;> simp [CallPolicy.verdict, hdec, stricter, exceeds]

end Antiproton
