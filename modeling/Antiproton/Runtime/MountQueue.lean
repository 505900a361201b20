import Mathlib.Logic.Function.Basic
import Antiproton.Lib.History

/-!
# Antiproton.Runtime.MountQueue

One mount's turn (`#onMount`, `src/runtime/gateway.ts`): a chain of promises for each key, the last of them kept in a
map. A call waits for the promise before it to settle, leaves its own in its place, and takes it out again when it
settles, unless another has taken its place.

What a promise's settling queues runs as a job of its own, and jobs may run in any order: which job of a call is queued
is the call's phase. Calls arrive and tasks end between any two jobs.

* `step_chained`: what every step keeps of the chains and of the map.
* `turns_kept`: in every state reached the tasks of a key run one at a time and in the order they came, each once, none is
  lost, and the map keeps a key only until its last call is dropped.
* `entry_after_end`: the map still has a key just after its only task has ended.
-/

namespace Antiproton.MountQueue

open History

variable {K : Type}

/-- How far a call is. -/
inductive Phase where
  /-- The promise before it has not settled. -/
  | waiting
  /-- It has: the job that calls `fn` is queued. -/
  | due
  | running
  /-- The task was resolved or rejected: the job that settles its promise is queued. -/
  | ended (resolved : Bool)
  /-- Its promise has settled: the job that drops it from the map is queued. -/
  | settled
  | dropped
deriving DecidableEq, Repr

/-- Its promise has settled. -/
def Phase.isSettled : Phase → Bool
  | .settled | .dropped => true
  | _ => false

/-- Its task was called. -/
def Phase.started : Phase → Bool
  | .waiting | .due => false
  | _ => true

/-- A job of it is queued. -/
def Phase.hasJob : Phase → Bool
  | .due | .ended _ | .settled => true
  | _ => false

/-- One call of `#onMount`: the call whose promise it waits for, and how often its task was called. -/
structure Call (K : Type) where
  key : K
  tail : Option Nat
  phase : Phase
  starts : Nat
deriving DecidableEq, Repr

/-- Every call, in the order they came, and `#queues`: the call whose promise each key has. -/
structure Queues (K : Type) where
  calls : List (Call K)
  entries : K → Option Nat

def Queues.empty : Queues K := ⟨[], fun _ => none⟩

/-- The call with a number. -/
def Queues.call? (q : Queues K) (n : Nat) : Option (Call K) := q.calls[n]?

section Source

variable [DecidableEq K]

/-- `#onMount(key, fn)`, as far as it runs at once. -/
def onMount (key : K) (q : Queues K) : Queues K :=
  let tail := q.entries key
  let settled := tail.all fun t => (q.call? t).all (·.phase.isSettled)
  ⟨q.calls ++ [⟨key, tail, if settled then .due else .waiting, 0⟩],
    Function.update q.entries key (some q.calls.length)⟩

/-- The settling of a call's promise, as it reaches another call: what waits for it is due. -/
def Call.afterSettled (n : Nat) (c : Call K) : Call K :=
  if c.phase = .waiting ∧ c.tail = some n then { c with phase := .due } else c

/-- The job queued for a call. -/
def job (n : Nat) (q : Queues K) : Queues K :=
  match q.call? n with
  | none => q
  | some c =>
    match c.phase with
    | .due => { q with calls := q.calls.set n { c with phase := .running, starts := c.starts + 1 } }
    | .ended _ => { q with calls := (q.calls.set n { c with phase := .settled }).map (·.afterSettled n) }
    | .settled =>
      -- dropped from the map only while it is still the last
      let entries := if q.entries c.key = some n then Function.update q.entries c.key none else q.entries
      ⟨q.calls.set n { c with phase := .dropped }, entries⟩
    | _ => q

/-- A task's promise is resolved or rejected. -/
def finish (n : Nat) (resolved : Bool) (q : Queues K) : Queues K :=
  match q.call? n with
  | none => q
  | some c => if c.phase = .running then { q with calls := q.calls.set n { c with phase := .ended resolved } } else q

inductive Event (K : Type) where
  | call (key : K)
  | job (n : Nat)
  | finish (n : Nat) (resolved : Bool)
deriving DecidableEq, Repr

def step (e : Event K) (q : Queues K) : Unit × Queues K :=
  match e with
  | .call key => ((), onMount key q)
  | .job n => ((), job n q)
  | .finish n resolved => ((), finish n resolved q)

end Source

/-! ## What every step keeps -/

/-- A call comes right after another of its key. -/
structure Follows (q : Queues K) (i j : Nat) (key : K) : Prop where
  before : i < j
  next : ∀ m c, i < m → m < j → q.call? m = some c → c.key ≠ key

/-- The chains of the keys, and the map of their last promises. -/
structure Chained (q : Queues K) : Prop where
  /-- A call whose wait is over comes after calls that have settled. -/
  behind : ∀ i j c d, i < j → q.call? i = some c → q.call? j = some d → c.key = d.key → d.phase ≠ .waiting →
    c.phase.isSettled = true
  /-- A call that waits does so for the one right before it, which has not settled. -/
  waits : ∀ j d, q.call? j = some d → d.phase = .waiting →
    ∃ i c, d.tail = some i ∧ q.call? i = some c ∧ c.key = d.key ∧ c.phase.isSettled = false ∧ Follows q i j d.key
  /-- The map has a key's last call, until it is dropped. -/
  entry : ∀ key i, q.entries key = some i → ∃ c, q.call? i = some c ∧ c.key = key ∧ c.phase ≠ .dropped ∧
    ∀ j d, i < j → q.call? j = some d → d.key ≠ key
  /-- A key the map does not have has only calls that have settled. -/
  absent : ∀ key j d, q.entries key = none → q.call? j = some d → d.key = key → d.phase.isSettled = true
  starts : ∀ j d, q.call? j = some d → d.starts = if d.phase.started then 1 else 0

section Steps

variable {q : Queues K}

theorem chained_empty : Chained (Queues.empty : Queues K) := by
  refine ⟨?_, ?_, ?_, ?_, ?_⟩
  · intro i j c d _ hc
    exact nomatch hc
  · intro j d hd
    exact nomatch hd
  · intro key i hi
    exact nomatch hi
  · intro key j d _ hd
    exact nomatch hd
  · intro j d hd
    exact nomatch hd

theorem call_lt {j : Nat} {d : Call K} (h : q.call? j = some d) : j < q.calls.length :=
  (List.getElem?_eq_some_iff.1 h).1

/-- A key whose last promise has settled has only calls that have. -/
theorem Chained.all_settled (hq : Chained q) {key : K} {n : Nat} {c : Call K} (he : q.entries key = some n)
    (hc : q.call? n = some c) (hs : c.phase.isSettled = true) {j : Nat} {d : Call K} (hd : q.call? j = some d)
    (hkey : d.key = key) : d.phase.isSettled = true := by
  obtain ⟨c', hc', hck, -, hlast⟩ := hq.entry key n he
  obtain rfl : c = c' := Option.some.inj (hc.symm.trans hc')
  rcases Nat.lt_trichotomy j n with hlt | rfl | hgt
  · have hwait : c.phase ≠ .waiting := by
      intro h
      rw [h] at hs
      cases hs
    exact hq.behind j n d c hlt hd hc (hkey.trans hck.symm) hwait
  · obtain rfl : c = d := Option.some.inj (hc.symm.trans hd)
    exact hs
  · exact absurd hkey (hlast j d hgt hd)

/-- A call moved on within what it keeps others waiting for, and the map without entries of dropped calls. -/
theorem set_chained (hq : Chained q) {n : Nat} {c c' : Call K} {entries : K → Option Nat} (hc : q.call? n = some c)
    (hkey : c'.key = c.key) (hp : c.phase ≠ .waiting) (hp' : c'.phase ≠ .waiting)
    (hs : c'.phase.isSettled = c.phase.isSettled) (hstarts : c'.starts = if c'.phase.started then 1 else 0)
    (hsome : ∀ key i, entries key = some i → q.entries key = some i ∧ (i = n → c'.phase ≠ .dropped))
    (hnone : ∀ key, entries key = none → q.entries key = none ∨ (q.entries key = some n ∧ c.phase.isSettled = true)) :
    Chained ⟨q.calls.set n c', entries⟩ := by
  have hat : ∀ j d, (⟨q.calls.set n c', entries⟩ : Queues K).call? j = some d →
      ∃ d₀, q.call? j = some d₀ ∧ d.key = d₀.key ∧ d.phase.isSettled = d₀.phase.isSettled ∧
        (d.phase = .waiting ↔ d₀.phase = .waiting) ∧ (j = n ∧ d = c' ∨ j ≠ n ∧ d = d₀) := by
    intro j d hd
    simp only [Queues.call?, List.getElem?_set] at hd
    by_cases hj : n = j
    · subst hj
      rw [if_pos rfl, if_pos (call_lt hc)] at hd
      obtain rfl := Option.some.inj hd
      exact ⟨c, hc, hkey, hs, iff_of_false hp' hp, .inl ⟨rfl, rfl⟩⟩
    · rw [if_neg hj] at hd
      exact ⟨d, hd, rfl, rfl, .rfl, .inr ⟨Ne.symm hj, rfl⟩⟩
  have hback : ∀ j d₀, q.call? j = some d₀ → ∃ d, (⟨q.calls.set n c', entries⟩ : Queues K).call? j = some d ∧
      d.key = d₀.key ∧ d.phase.isSettled = d₀.phase.isSettled ∧ (j = n ∧ d = c' ∨ j ≠ n ∧ d = d₀) := by
    intro j d₀ hd
    simp only [Queues.call?, List.getElem?_set]
    by_cases hj : n = j
    · subst hj
      obtain rfl := Option.some.inj (hc.symm.trans hd)
      rw [if_pos rfl, if_pos (call_lt hc)]
      exact ⟨c', rfl, hkey, hs, .inl ⟨rfl, rfl⟩⟩
    · rw [if_neg hj]
      exact ⟨d₀, hd, rfl, rfl, .inr ⟨Ne.symm hj, rfl⟩⟩
  refine ⟨?_, ?_, ?_, ?_, ?_⟩
  · intro i j a b hij ha hb hkeys hw
    obtain ⟨a₀, ha₀, hak, has, -⟩ := hat i a ha
    obtain ⟨b₀, hb₀, hbk, -, hbw, -⟩ := hat j b hb
    rw [has]
    exact hq.behind i j a₀ b₀ hij ha₀ hb₀ (by rw [← hak, hkeys, hbk]) fun h => hw (hbw.2 h)
  · intro j d hd hw
    obtain ⟨d₀, hd₀, hdk, -, hdw, hor⟩ := hat j d hd
    have hsame : d = d₀ := by
      rcases hor with ⟨-, rfl⟩ | ⟨-, h⟩
      · exact absurd hw hp'
      · exact h
    subst hsame
    obtain ⟨i, e, ht, he, hek, hes, hf⟩ := hq.waits j d hd₀ hw
    obtain ⟨e', he', hek', hes', -⟩ := hback i e he
    refine ⟨i, e', ht, he', hek'.trans hek, hes'.trans hes, hf.before, ?_⟩
    intro m f hm hmj hfm
    obtain ⟨f₀, hf₀, hfk, -⟩ := hat m f hfm
    rw [hfk]
    exact hf.next m f₀ hm hmj hf₀
  · intro key i hi
    obtain ⟨hold, hdrop⟩ := hsome key i hi
    obtain ⟨e, he, hek, hep, hlast⟩ := hq.entry key i hold
    obtain ⟨e', he', hek', -, hor⟩ := hback i e he
    refine ⟨e', he', hek'.trans hek, ?_, ?_⟩
    · rcases hor with ⟨rfl, rfl⟩ | ⟨-, rfl⟩
      · exact hdrop rfl
      · exact hep
    · intro j d hij hd
      obtain ⟨d₀, hd₀, hdk, -⟩ := hat j d hd
      rw [hdk]
      exact hlast j d₀ hij hd₀
  · intro key j d he hd hdk
    obtain ⟨d₀, hd₀, hdk₀, hds, -⟩ := hat j d hd
    rw [hds]
    rcases hnone key he with h | ⟨h, hcs⟩
    · exact hq.absent key j d₀ h hd₀ (hdk₀.symm.trans hdk)
    · exact hq.all_settled h hc hcs hd₀ (hdk₀.symm.trans hdk)
  · intro j d hd
    obtain ⟨d₀, hd₀, -, -, -, hor⟩ := hat j d hd
    rcases hor with ⟨-, rfl⟩ | ⟨-, rfl⟩
    · exact hstarts
    · exact hq.starts j d hd₀

theorem afterSettled_key {n : Nat} {d : Call K} : (d.afterSettled n).key = d.key := by
  unfold Call.afterSettled
  split <;> rfl

theorem afterSettled_started {n : Nat} {d : Call K} : (d.afterSettled n).phase.started = d.phase.started := by
  unfold Call.afterSettled
  split
  · next h => rw [h.1]; rfl
  · rfl

theorem afterSettled_settled {n : Nat} {d : Call K} : (d.afterSettled n).phase.isSettled = d.phase.isSettled := by
  unfold Call.afterSettled
  split
  · next h => rw [h.1]; rfl
  · rfl

theorem afterSettled_starts {n : Nat} {d : Call K} : (d.afterSettled n).starts = d.starts := by
  unfold Call.afterSettled
  split <;> rfl

/-- What still waits has not changed, and waits for another call. -/
theorem afterSettled_waiting {n : Nat} {d : Call K} (h : (d.afterSettled n).phase = .waiting) :
    d.afterSettled n = d ∧ d.phase = .waiting ∧ d.tail ≠ some n := by
  unfold Call.afterSettled at h ⊢
  split
  · next hd => rw [if_pos hd] at h; cases h
  · next hd =>
    rw [if_neg hd] at h
    exact ⟨rfl, h, fun ht => hd ⟨h, ht⟩⟩

/-- A promise settles: its call came after settled ones only, so all that waited for it come next. -/
theorem settle_chained (hq : Chained q) {n : Nat} {c : Call K} {resolved : Bool} (hc : q.call? n = some c)
    (hp : c.phase = .ended resolved) :
    Chained { q with calls := (q.calls.set n { c with phase := .settled }).map (·.afterSettled n) } := by
  have hat : ∀ j d, ({ q with calls := (q.calls.set n { c with phase := .settled }).map (·.afterSettled n) }
      : Queues K).call? j = some d → ∃ d₀, q.call? j = some d₀ ∧
        (j = n ∧ d = { c with phase := .settled } ∨ j ≠ n ∧ d = d₀.afterSettled n) := by
    intro j d hd
    simp only [Queues.call?, List.getElem?_map, List.getElem?_set] at hd
    by_cases hj : n = j
    · subst hj
      rw [if_pos rfl, if_pos (call_lt hc)] at hd
      obtain rfl := Option.some.inj hd
      refine ⟨c, hc, .inl ⟨rfl, ?_⟩⟩
      exact if_neg fun h => nomatch h.1
    · rw [if_neg hj] at hd
      obtain ⟨d₀, hd₀, rfl⟩ := Option.map_eq_some_iff.1 hd
      exact ⟨d₀, hd₀, .inr ⟨Ne.symm hj, rfl⟩⟩
  have hback : ∀ j d₀, q.call? j = some d₀ → j ≠ n → ({ q with
      calls := (q.calls.set n { c with phase := .settled }).map (·.afterSettled n) } : Queues K).call? j =
        some (d₀.afterSettled n) := by
    intro j d₀ hd hj
    simp only [Queues.call?, List.getElem?_map, List.getElem?_set, if_neg (Ne.symm hj)]
    exact congrArg _ hd
  have hkeys : ∀ {j : Nat} {d d₀ : Call K}, (j = n ∧ d = { c with phase := .settled } ∨ j ≠ n ∧ d = d₀.afterSettled n) →
      q.call? j = some d₀ → d.key = d₀.key := by
    intro j d d₀ hor hd₀
    rcases hor with ⟨rfl, rfl⟩ | ⟨-, rfl⟩
    · obtain rfl : c = d₀ := Option.some.inj (hc.symm.trans hd₀)
      rfl
    · exact afterSettled_key
  have hmore : ∀ {j : Nat} {d d₀ : Call K}, (j = n ∧ d = { c with phase := .settled } ∨ j ≠ n ∧ d = d₀.afterSettled n) →
      d₀.phase.isSettled = true → d.phase.isSettled = true := by
    intro j d d₀ hor hs
    rcases hor with ⟨rfl, rfl⟩ | ⟨-, rfl⟩
    · rfl
    · exact afterSettled_settled.trans hs
  refine ⟨?_, ?_, ?_, ?_, ?_⟩
  · intro i j a b hij ha hb hab hw
    obtain ⟨a₀, ha₀, hao⟩ := hat i a ha
    obtain ⟨b₀, hb₀, hbo⟩ := hat j b hb
    have hk : a₀.key = b₀.key := by rw [← hkeys hao ha₀, hab, hkeys hbo hb₀]
    by_cases hbw : b₀.phase = .waiting
    · -- the one whose wait ends now: all before it are the settling call and those before that
      obtain ⟨t, e, ht, he, hek, -, hf⟩ := hq.waits j b₀ hb₀ hbw
      have htn : t = n := by
        rcases hbo with ⟨rfl, -⟩ | ⟨-, rfl⟩
        · obtain rfl : c = b₀ := Option.some.inj (hc.symm.trans hb₀)
          rw [hp] at hbw
          cases hbw
        · by_contra hne
          refine hw ?_
          rw [Call.afterSettled, if_neg fun h => hne (Option.some.inj (ht.symm.trans h.2))]
          exact hbw
      subst htn
      obtain rfl : c = e := Option.some.inj (hc.symm.trans he)
      rcases Nat.lt_trichotomy i t with hlt | rfl | hgt
      · have hcw : c.phase ≠ .waiting := by rw [hp]; exact fun h => nomatch h
        exact hmore hao (hq.behind i t a₀ c hlt ha₀ hc (hk.trans hek.symm) hcw)
      · rcases hao with ⟨-, rfl⟩ | ⟨h, -⟩
        · rfl
        · exact absurd rfl h
      · exact absurd hk (hf.next i a₀ hgt hij ha₀)
    · exact hmore hao (hq.behind i j a₀ b₀ hij ha₀ hb₀ hk hbw)
  · intro j d hd hw
    obtain ⟨d₀, hd₀, hdo⟩ := hat j d hd
    rcases hdo with ⟨-, rfl⟩ | ⟨-, rfl⟩
    · cases hw
    · obtain ⟨hsame, hdw, htn⟩ := afterSettled_waiting hw
      rw [hsame]
      obtain ⟨i, e, ht, he, hek, hes, hf⟩ := hq.waits j d₀ hd₀ hdw
      have hin : i ≠ n := fun h => htn (h ▸ ht)
      refine ⟨i, e.afterSettled n, ht, hback i e he hin, afterSettled_key.trans hek,
        afterSettled_settled.trans hes, hf.before, ?_⟩
      intro m f hm hmj hfm
      obtain ⟨f₀, hf₀, hfo⟩ := hat m f hfm
      rw [hkeys hfo hf₀]
      exact hf.next m f₀ hm hmj hf₀
  · intro key i hi
    obtain ⟨e, he, hek, hep, hlast⟩ := hq.entry key i hi
    have hlater : ∀ j d, i < j → ({ q with
        calls := (q.calls.set n { c with phase := .settled }).map (·.afterSettled n) } : Queues K).call? j = some d →
          d.key ≠ key := by
      intro j d hij hd
      obtain ⟨d₀, hd₀, hdo⟩ := hat j d hd
      rw [hkeys hdo hd₀]
      exact hlast j d₀ hij hd₀
    by_cases hin : i = n
    · subst hin
      obtain rfl : c = e := Option.some.inj (hc.symm.trans he)
      refine ⟨{ c with phase := .settled }, ?_, hek, Phase.noConfusion, hlater⟩
      simp only [Queues.call?, List.getElem?_map, List.getElem?_set, if_pos (call_lt hc), if_true, Option.map_some]
      exact congrArg some (if_neg fun h => nomatch h.1)
    · refine ⟨e.afterSettled n, hback i e he hin, afterSettled_key.trans hek, ?_, hlater⟩
      intro h
      unfold Call.afterSettled at h
      split at h
      · cases h
      · exact hep h
  · intro key j d he hd hdk
    obtain ⟨d₀, hd₀, hdo⟩ := hat j d hd
    exact hmore hdo (hq.absent key j d₀ he hd₀ ((hkeys hdo hd₀).symm.trans hdk))
  · intro j d hd
    obtain ⟨d₀, hd₀, hdo⟩ := hat j d hd
    rcases hdo with ⟨rfl, rfl⟩ | ⟨-, rfl⟩
    · have hstarts := hq.starts j c hc
      rw [hp] at hstarts
      exact hstarts
    · rw [afterSettled_starts, afterSettled_started]
      exact hq.starts j d₀ hd₀

theorem finish_chained (hq : Chained q) (n : Nat) (resolved : Bool) : Chained (finish n resolved q) := by
  unfold finish
  cases hc : q.call? n with
  | none => exact hq
  | some c =>
    change Chained (if c.phase = .running then _ else q)
    split
    · next hp =>
      have hstarts := hq.starts n c hc
      rw [hp] at hstarts
      refine set_chained hq hc rfl (by rw [hp]; exact Phase.noConfusion) Phase.noConfusion ?_ hstarts ?_ ?_
      · rw [hp]
        rfl
      · exact fun key i h => ⟨h, fun _ h => nomatch h⟩
      · exact fun key h => .inl h
    · exact hq

variable [DecidableEq K]

theorem call_append {key : K} {j : Nat} {d : Call K} (h : (onMount key q).call? j = some d) :
    q.call? j = some d ∨ (j = q.calls.length ∧ d.key = key ∧ d.tail = q.entries key ∧ d.starts = 0 ∧
      d.phase = if (q.entries key).all (fun t => (q.call? t).all (·.phase.isSettled)) then .due else .waiting) := by
  simp only [onMount, Queues.call?] at h ⊢
  rcases Nat.lt_trichotomy j q.calls.length with hlt | heq | hgt
  · rw [List.getElem?_append_left hlt] at h
    exact .inl h
  · subst heq
    rw [List.getElem?_append_right (Nat.le_refl _), Nat.sub_self] at h
    cases h
    exact .inr ⟨rfl, rfl, rfl, rfl, rfl⟩
  · rw [List.getElem?_eq_none (by rw [List.length_append, List.length_singleton]; omega)] at h
    cases h

theorem call_onMount {key : K} {j : Nat} {d : Call K} (h : q.call? j = some d) : (onMount key q).call? j = some d := by
  simp only [onMount, Queues.call?] at h ⊢
  rw [List.getElem?_append_left (List.getElem?_eq_some_iff.1 h).1]
  exact h

theorem entries_onMount {key : K} : (onMount key q).entries = Function.update q.entries key (some q.calls.length) := rfl

theorem onMount_chained (hq : Chained q) (key : K) : Chained (onMount key q) := by
  have hnew : ∀ j d, (onMount key q).call? j = some d → j = q.calls.length → d.phase ≠ .waiting →
      ∀ i c, q.call? i = some c → c.key = key → c.phase.isSettled = true := by
    intro j d hd hj hw i c hc hck
    rcases call_append hd with hold | ⟨-, -, -, -, hp⟩
    · have := call_lt hold
      omega
    · rw [hp] at hw
      cases he : q.entries key with
      | none => exact hq.absent key i c he hc hck
      | some t =>
        obtain ⟨e, het, -⟩ := hq.entry key t he
        have hall : e.phase.isSettled = true := by
          cases hs : e.phase.isSettled with
          | true => rfl
          | false =>
            rw [he, Option.all_some, het, Option.all_some, hs] at hw
            exact absurd rfl hw
        exact hq.all_settled he het hall hc hck
  refine ⟨?_, ?_, ?_, ?_, ?_⟩
  · intro i j c d hij hc hd hkeys hw
    have hi : q.call? i = some c := by
      rcases call_append hc with hi | ⟨hi, -⟩
      · exact hi
      · rcases call_append hd with hj | ⟨hj, -⟩
        · have := call_lt hj
          omega
        · omega
    rcases call_append hd with hj | ⟨hj, hdk, -⟩
    · exact hq.behind i j c d hij hi hj hkeys hw
    · exact hnew j d hd hj hw i c hi (hkeys.trans hdk)
  · intro j d hd hw
    rcases call_append hd with hj | ⟨hj, hdk, htail, -, hp⟩
    · obtain ⟨i, c, ht, hc, hk, hs, hf⟩ := hq.waits j d hj hw
      refine ⟨i, c, ht, call_onMount hc, hk, hs, hf.before, ?_⟩
      intro m e hm hmj he
      rcases call_append he with he | ⟨he, -⟩
      · exact hf.next m e hm hmj he
      · have := call_lt hj
        omega
    · rw [hw] at hp
      -- a new call waits only for a promise the map still has, and it has not settled
      cases he : q.entries key with
      | none =>
        rw [he] at hp
        cases hp
      | some t =>
        obtain ⟨e, het, hek, -, hlast⟩ := hq.entry key t he
        have hs : e.phase.isSettled = false := by
          cases hs : e.phase.isSettled with
          | false => rfl
          | true =>
            rw [he, Option.all_some, het, Option.all_some, hs] at hp
            cases hp
        refine ⟨t, e, htail.trans he, call_onMount het, hek.trans hdk.symm, hs, ?_, ?_⟩
        · have := call_lt het
          omega
        · intro m f hm hmj hf
          rcases call_append hf with hf | ⟨hf, -⟩
          · rw [hdk]
            exact hlast m f hm hf
          · omega
  · intro k i hi
    rw [entries_onMount] at hi
    by_cases hk : k = key
    · subst hk
      rw [Function.update_self] at hi
      obtain rfl := Option.some.inj hi
      have hcall : (onMount k q).call? q.calls.length = some ⟨k, q.entries k,
          if (q.entries k).all (fun t => (q.call? t).all (·.phase.isSettled)) then .due else .waiting, 0⟩ := by
        simp only [onMount, Queues.call?]
        rw [List.getElem?_append_right (Nat.le_refl _), Nat.sub_self]
        rfl
      refine ⟨_, hcall, rfl, ?_, ?_⟩
      · intro h
        split at h <;> cases h
      · intro j d hj hd
        rcases call_append hd with hd | ⟨hd, -⟩
        · have := call_lt hd
          omega
        · omega
    · rw [Function.update_of_ne hk] at hi
      obtain ⟨c, hc, hck, hp, hlast⟩ := hq.entry k i hi
      refine ⟨c, call_onMount hc, hck, hp, ?_⟩
      intro j d hij hd
      rcases call_append hd with hd | ⟨-, hdk, -⟩
      · exact hlast j d hij hd
      · rw [hdk]
        exact fun h => hk h.symm
  · intro k j d he hd hdk
    rw [entries_onMount] at he
    by_cases hk : k = key
    · subst hk
      rw [Function.update_self] at he
      cases he
    · rw [Function.update_of_ne hk] at he
      rcases call_append hd with hd | ⟨-, hdk', -⟩
      · exact hq.absent k j d he hd hdk
      · exact absurd (hdk.symm.trans hdk') hk
  · intro j d hd
    rcases call_append hd with hd | ⟨-, -, -, hstarts, hp⟩
    · exact hq.starts j d hd
    · rw [hstarts, hp]
      split <;> rfl

theorem job_chained (hq : Chained q) (n : Nat) : Chained (job n q) := by
  unfold job
  cases hc : q.call? n with
  | none => exact hq
  | some c =>
    have hstarts := hq.starts n c hc
    cases hp : c.phase with
    | due =>
      rw [hp] at hstarts
      simp only [hp]
      refine set_chained hq hc rfl (by rw [hp]; exact Phase.noConfusion) Phase.noConfusion ?_ ?_ ?_ ?_
      · rw [hp]
        rfl
      · exact congrArg (· + 1) hstarts
      · exact fun key i h => ⟨h, fun _ h => nomatch h⟩
      · exact fun key h => .inl h
    | ended resolved =>
      simp only [hp]
      exact settle_chained hq hc hp
    | settled =>
      rw [hp] at hstarts
      simp only [hp]
      refine set_chained hq hc rfl (by rw [hp]; exact Phase.noConfusion) Phase.noConfusion ?_ hstarts ?_ ?_
      · rw [hp]
        rfl
      · intro key i h
        split at h
        · next hown =>
          by_cases hk : key = c.key
          · subst hk
            rw [Function.update_self] at h
            cases h
          · rw [Function.update_of_ne hk] at h
            refine ⟨h, fun hin => ?_⟩
            -- the map has this call under its own key only
            obtain ⟨e, he, hek, -⟩ := hq.entry key i h
            subst hin
            exact absurd (hek.symm.trans (congrArg Call.key (Option.some.inj (he.symm.trans hc)))) hk
        · next hown =>
          refine ⟨h, fun hin => ?_⟩
          subst hin
          obtain ⟨e, he, hek, -⟩ := hq.entry key i h
          obtain rfl : c = e := Option.some.inj (hc.symm.trans he)
          exact absurd (hek ▸ h) hown
      · intro key h
        split at h
        · next hown =>
          by_cases hk : key = c.key
          · subst hk
            exact .inr ⟨hown, by rw [hp]; rfl⟩
          · rw [Function.update_of_ne hk] at h
            exact .inl h
        · exact .inl h
    | waiting | running | dropped =>
      simp only [hp]
      exact hq

theorem step_chained (e : Event K) (q : Queues K) (hq : Chained q) : Chained (step e q).2 := by
  cases e with
  | call key => exact onMount_chained hq key
  | job n => exact job_chained hq n
  | finish n resolved => exact finish_chained hq n resolved

end Steps

/-! ## In every state reached -/

/-- What a caller is promised of its turn. -/
structure TurnsKept (q : Queues K) : Prop where
  /-- A task is called only after the promise of every call of its key that came before has settled. -/
  in_order : ∀ i j c d, i < j → q.call? i = some c → q.call? j = some d → c.key = d.key → d.phase.started = true →
    c.phase.isSettled = true
  alone : ∀ i j c d, q.call? i = some c → q.call? j = some d → c.key = d.key → c.phase = .running →
    d.phase = .running → i = j
  once : ∀ j d, q.call? j = some d → d.starts ≤ 1
  /-- Once no task of a key runs and no job of its calls is queued, every task of the key was called. -/
  each_once : ∀ key, (∀ j d, q.call? j = some d → d.key = key → d.phase ≠ .running ∧ d.phase.hasJob = false) →
    ∀ j d, q.call? j = some d → d.key = key → d.starts = 1
  /-- While a task has not been called, one of its key is running, or a job of the key's calls is queued. -/
  none_lost : ∀ j d, q.call? j = some d → d.starts = 0 → ∃ i c, i ≤ j ∧ q.call? i = some c ∧ c.key = d.key ∧
    (c.phase = .running ∨ c.phase.hasJob = true)
  /-- The map has no entry of a key whose calls have all been dropped. -/
  entry_dropped : ∀ key, (∀ j d, q.call? j = some d → d.key = key → d.phase = .dropped) → q.entries key = none

section Reached

variable {q : Queues K}

theorem Phase.started_of_settled {p : Phase} (h : p.isSettled = true) : p.started = true := by
  cases p with
  | settled | dropped => rfl
  | waiting | due | running | ended resolved => cases h

theorem Chained.in_order (hq : Chained q) {i j : Nat} {c d : Call K} (hij : i < j) (hc : q.call? i = some c)
    (hd : q.call? j = some d) (hk : c.key = d.key) (hs : d.phase.started = true) : c.phase.isSettled = true := by
  refine hq.behind i j c d hij hc hd hk ?_
  intro h
  rw [h] at hs
  cases hs

theorem Chained.none_lost (hq : Chained q) {j : Nat} {d : Call K} (hd : q.call? j = some d)
    (h : d.phase.started = false) : ∃ i c, i ≤ j ∧ q.call? i = some c ∧ c.key = d.key ∧
      (c.phase = .running ∨ c.phase.hasJob = true) := by
  induction j using Nat.strongRecOn generalizing d with
  | ind j ih =>
    cases hp : d.phase with
    | due => exact ⟨j, d, Nat.le_refl j, hd, rfl, .inr (by rw [hp]; rfl)⟩
    | waiting =>
      obtain ⟨i, c, -, hc, hck, hcs, hf⟩ := hq.waits j d hd hp
      have hij := hf.before
      by_cases hstart : c.phase.started = true
      · refine ⟨i, c, by omega, hc, hck, ?_⟩
        cases hcp : c.phase with
        | running => exact .inl rfl
        | ended resolved => exact .inr rfl
        | waiting | due => rw [hcp] at hstart; cases hstart
        | settled | dropped => rw [hcp] at hcs; cases hcs
      · obtain ⟨m, e, hm, he, hek, hjob⟩ := ih i hij hc (Bool.eq_false_iff.2 hstart)
        exact ⟨m, e, by omega, he, hek.trans hck, hjob⟩
    | running | settled | dropped | ended resolved => rw [hp] at h; cases h

theorem Chained.turns (hq : Chained q) : TurnsKept q := by
  have hlost : ∀ j d, q.call? j = some d → d.starts = 0 → ∃ i c, i ≤ j ∧ q.call? i = some c ∧ c.key = d.key ∧
      (c.phase = .running ∨ c.phase.hasJob = true) := by
    intro j d hd hz
    refine hq.none_lost hd ?_
    have hs := hq.starts j d hd
    cases hst : d.phase.started with
    | false => rfl
    | true =>
      rw [hst, hz] at hs
      cases hs
  have honce : ∀ j d, q.call? j = some d → d.starts ≤ 1 := by
    intro j d hd
    rw [hq.starts j d hd]
    split <;> omega
  refine ⟨?_, ?_, honce, ?_, hlost, ?_⟩
  · intro i j c d hij hc hd hk hs
    exact hq.in_order hij hc hd hk hs
  · intro i j c d hc hd hk hcr hdr
    rcases Nat.lt_trichotomy i j with hij | rfl | hji
    · have hs := hq.in_order hij hc hd hk (by rw [hdr]; rfl)
      rw [hcr] at hs
      cases hs
    · rfl
    · have hs := hq.in_order hji hd hc hk.symm (by rw [hcr]; rfl)
      rw [hdr] at hs
      cases hs
  · intro key hquiet j d hd hdk
    by_contra hne
    have hle := honce j d hd
    obtain ⟨i, c, -, hc, hck, hrun⟩ := hlost j d hd (by omega)
    obtain ⟨hnr, hnj⟩ := hquiet i c hc (hck.trans hdk)
    rcases hrun with hr | hj
    · exact hnr hr
    · rw [hnj] at hj
      cases hj
  · intro key hall
    cases he : q.entries key with
    | none => rfl
    | some i =>
      obtain ⟨c, hc, hck, hp, -⟩ := hq.entry key i he
      exact absurd (hall i c hc hck) hp

end Reached

/-- Whatever calls come, tasks end and jobs run, in whatever order, the tasks of a key take their turns. -/
theorem turns_kept [DecidableEq K] (events : List (Event K)) : TurnsKept (final step events Queues.empty) := by
  have hchained : Chained (final step events (Queues.empty : Queues K)) :=
    final_invariant chained_empty fun e q hq => step_chained e q hq
  exact hchained.turns

/-- Between a task's end and the job that drops its call, the map still has the key, though nothing is queued or running. -/
theorem entry_after_end :
    ¬ ∀ events : List (Event Nat), ∀ key, (∀ c ∈ (final step events Queues.empty).calls, c.key = key →
      c.phase ≠ .waiting ∧ c.phase ≠ .due ∧ c.phase ≠ .running) →
        (final step events Queues.empty).entries key = none := by
  intro h
  have h0 := h [.call 7, .job 0, .finish 0 true] 7 (by decide)
  exact absurd h0 (by decide)

end Antiproton.MountQueue
