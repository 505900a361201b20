import Antiproton.Inbound.Sound

/-!
# Antiproton.Inbound.Accepted

A pushed event is accepted once for its key, leaves the queue once, and is handed to the engine at most once, over every
interleaving of calls, passes, crashes and removals.

* `receive_cases`: what a call that answers a push can do.
* `Valid`: the invariant, and what holds of the row the pass has in hand.
* `accepted_once`: over every history whose pushes name no empty key and are answered within six days.
* `twice_accepted`: a history with an empty key.
-/

namespace Antiproton.Inbound

open Js

section Receive

variable {w : World}

/-- What a call that answers a push can do. -/
inductive Answered (c : Received) (now : Int) (w : World) : HookAnswer → World → Prop where
  | refused (outcome : InboundOutcome) (reason : Option Str) (after : Option Int)
      (hout : outcome = .duplicate ∧ c.key.any (fun key => key != [] && seenBefore c.hookId key now w.tables) = true ∨
        outcome = .rate_limited ∧ c.key.any (fun key => key != [] && seenBefore c.hookId key now w.tables) = false) :
      Answered c now w ⟨some outcome, after, false⟩ { w with tables := done c now outcome reason w.tables }
  | woken (alias_ : String) (hseen : c.key.any (fun key => key != [] && seenBefore c.hookId key now w.tables) = false)
      (hroom : underRate c.hookId now w.tables = true) :
      Answered c now w ⟨some .delivered, none, true⟩
        { w with
          tables := recordInbound (wakeRecord c now alias_) w.tables
          pushes := w.pushes ++ [⟨none, c.hookId, c.key.map .named, now, [wakeRecord c now alias_]⟩] }
  | queued (t : Tables) (hseen : c.key.any (fun key => key != [] && seenBefore c.hookId key now w.tables) = false)
      (hroom : underRate c.hookId now w.tables = true) (ht : acceptInbound c now w.tables = some t) :
      Answered c now w ⟨some .delivered, none, true⟩
        { w with
          tables := t
          pushes := w.pushes ++ [⟨some w.tables.nextSeq, c.hookId, some (c.rowKey w.tables), now, []⟩] }
  | threw (hseen : c.key.any (fun key => key != [] && seenBefore c.hookId key now w.tables) = false)
      (ht : acceptInbound c now w.tables = none) : Answered c now w ⟨none, none, false⟩ w

theorem receive_cases (c : Received) (w : World) :
    Answered c (w.clock - c.age) w (receive c w).1 (receive c w).2 := by
  unfold receive
  generalize w.clock - c.age = now
  dsimp only
  unfold receiveHook
  split
  · rename_i hseen
    exact .refused .duplicate none none (.inl ⟨rfl, hseen⟩)
  · rename_i hseen
    have hseen := Bool.eq_false_iff.2 hseen
    split
    · exact .refused .rate_limited _ _ (.inr ⟨rfl, hseen⟩)
    · rename_i hroom
      have hroom : underRate c.hookId now w.tables = true := by simpa using hroom
      split
      · exact .refused .rate_limited _ _ (.inr ⟨rfl, hseen⟩)
      · cases hwakes : c.wakes with
        | some alias_ =>
          have hpush : pushOf c now w.tables = ⟨none, c.hookId, c.key.map .named, now, [wakeRecord c now alias_]⟩ := by
            rw [pushOf, hwakes]
          dsimp only
          rw [if_pos rfl, hpush]
          exact .woken alias_ hseen hroom
        | none =>
          cases ht : acceptInbound c now w.tables with
          | none => exact .threw hseen ht
          | some t =>
            have hpush : pushOf c now w.tables = ⟨some w.tables.nextSeq, c.hookId, some (c.rowKey w.tables), now, []⟩ := by
              rw [pushOf, hwakes]
            dsimp only
            rw [if_pos rfl, hpush]
            exact .queued t hseen hroom ht

/-- The statement that queues a push goes through where no queued row of its hook has its key. -/
theorem acceptInbound_none {c : Received} {now : Int} {t : Tables} :
    acceptInbound c now t = none ↔ ∃ r ∈ t.pending, r.hookId = c.hookId ∧ r.dedupeKey = c.rowKey t := by
  unfold acceptInbound Table.insert
  rw [Option.map_eq_none_iff]
  split
  · rename_i hany
    simpa using hany
  · rename_i hany
    simpa using hany

theorem acceptInbound_some {c : Received} {now : Int} {t t' : Tables} (h : acceptInbound c now t = some t') :
    t' = { t with
      pending := t.pending ++
        [⟨t.nextSeq, c.hookId, c.alias_, c.rowKey t, c.message, now, false, 0, 0, none, some c.installationId⟩]
      nextSeq := t.nextSeq + 1 } := by
  unfold acceptInbound Table.insert at h
  split at h
  · cases h
  · exact (Option.some.inj h).symm

theorem own_rowKey {c : Received} {t : Tables} {n : Nat} (h : c.rowKey t = .own n) : n < t.nextSeq + 1 := by
  unfold Received.rowKey at h
  split at h
  · cases h
  · cases h
    exact Nat.lt_succ_self _

theorem receive_sound (h : Sound w) {c : Received} (hage : (c.age : Int) < INBOUND_KEEP_MS - INBOUND_DEDUPE_MS) :
    Sound (receive c w).2 := by
  have hpast : w.clock - c.age ≤ w.clock := by omega
  have hcases := receive_cases c w
  generalize (receive c w).1 = a, (receive c w).2 = w' at hcases
  cases hcases with
  | refused outcome reason after hout =>
    refine record_sound h ?_ hpast
    rcases hout with ⟨rfl, -⟩ | ⟨rfl, -⟩ <;> rfl
  | woken alias_ hseen hroom =>
    refine wake_sound (p := ⟨none, c.hookId, c.key.map .named, w.clock - c.age, [wakeRecord c (w.clock - c.age) alias_]⟩) h
      rfl rfl ⟨rfl, rfl, rfl, .inl rfl, fun _ => rfl⟩ hpast fun start hstart => rate_room h hage hroom hstart
  | queued t hseen hroom ht =>
    rw [acceptInbound_some ht]
    exact queue_sound h rfl rfl rfl rfl (fun n hn => own_rowKey hn) hpast fun start hstart => rate_room h hage hroom hstart
  | threw => exact h

/-- How a push with a key that is not empty is answered. -/
theorem receive_answer (h : Sound w) {c : Received} (hage : (c.age : Int) < INBOUND_KEEP_MS - INBOUND_DEDUPE_MS)
    (hkey : c.key ≠ some []) :
    (receive c w).1.outcome.isSome = true ∧ ∀ key, c.key = some key →
      ((receive c w).1.outcome = some .duplicate ↔ Held w c.hookId key (w.clock - c.age)) ∧
        (Held w c.hookId key (w.clock - c.age) → (receive c w).1.accepted = false ∧ (receive c w).2.pushes = w.pushes) := by
  have hseen : ∀ key, c.key = some key → (c.key.any (fun key => key != [] && seenBefore c.hookId key (w.clock - c.age) w.tables) =
      true ↔ Held w c.hookId key (w.clock - c.age)) := by
    intro key hc
    have hne : (key != []) = true := by
      rw [hc] at hkey
      simpa using hkey
    rw [hc, Option.any_some, hne, Bool.true_and]
    exact seenBefore_iff h hage c.hookId key
  have hcases := receive_cases c w
  generalize (receive c w).1 = a, (receive c w).2 = w' at hcases
  cases hcases with
  | refused outcome reason after hout =>
    refine ⟨rfl, fun key hc => ⟨?_, fun _ => ⟨rfl, rfl⟩⟩⟩
    rw [← hseen key hc]
    rcases hout with ⟨rfl, hs⟩ | ⟨rfl, hs⟩ <;> simp [hs]
  | woken alias_ hs hroom =>
    refine ⟨rfl, fun key hc => ?_⟩
    rw [← hseen key hc, hs]
    simp
  | queued t hs hroom ht =>
    refine ⟨rfl, fun key hc => ?_⟩
    rw [← hseen key hc, hs]
    simp
  | threw hs ht =>
    exfalso
    obtain ⟨r, hr, hhook, hrow⟩ := acceptInbound_none.1 ht
    cases hc : c.key with
    | none =>
      rw [Received.rowKey, hc] at hrow
      exact Nat.lt_irrefl _ (h.own r hr _ hrow)
    | some key =>
      rw [Received.rowKey, hc] at hrow
      obtain ⟨p, hp, hopen, -, hcard⟩ := push_of_row h hr
      obtain ⟨hhook', hkey', -⟩ := card_eq hcard.symm
      have hheld : Held w c.hookId key (w.clock - c.age) :=
        ⟨p, hp, hhook'.symm.trans hhook, hkey'.symm.trans (congrArg some hrow), .inl hopen⟩
      rw [← hseen key hc, hs] at hheld
      exact Bool.false_ne_true hheld

end Receive

/-! ## The pass -/

section Pass

variable {w : World} {row : PendingInbound}

theorem phase_sound (h : Sound w) (phase : Phase) : Sound { w with phase := phase } := { h with }

/-- The pass writes the rows' own progress. -/
theorem update_sound (h : Sound w) {p : PendingInbound → Bool} {f : PendingInbound → PendingInbound}
    (hcard : ∀ r, (f r).card = r.card)
    (hposting : ∀ r ∈ w.tables.pending, p r = true → r.seq ∈ w.engine → r.posting = true → (f r).posting = true) :
    Sound { w with tables := { w.tables with pending := Table.update p f w.tables.pending } } := by
  have hrow : ∀ {r' : PendingInbound}, r' ∈ Table.update p f w.tables.pending → ∃ r ∈ w.tables.pending, r'.card = r.card ∧
      (r.seq ∈ w.engine → r.posting = true → r'.posting = true) := by
    intro r' hr'
    obtain ⟨r, hr, rfl⟩ := List.mem_map.1 hr'
    refine ⟨r, hr, ?_, ?_⟩
    · split
      · exact hcard r
      · rfl
    · split
      · rename_i hp
        exact hposting r hr hp
      · exact fun _ => id
  have hcards : (Table.update p f w.tables.pending).map (·.card) = w.tables.pending.map (·.card) := by
    rw [Table.update, List.map_map]
    refine List.map_congr_left fun r _ => ?_
    dsimp only [Function.comp]
    split
    · exact hcard r
    · rfl
  have hseqs : (Table.update p f w.tables.pending).map (·.seq) = w.tables.pending.map (·.seq) := by
    have hfst := congrArg (List.map Prod.fst) hcards
    rwa [List.map_map, List.map_map] at hfst
  refine
    { h with
      sorted := ?sorted
      below := ?below
      own := ?own
      queued := hcards.trans h.queued
      engine := ?engine }
  case sorted =>
    have hpair := List.pairwise_map.2 h.sorted
    rw [← hseqs] at hpair
    exact List.pairwise_map.1 hpair
  case below =>
    intro r' hr'
    obtain ⟨r, hr, hc, -⟩ := hrow hr'
    rw [show r'.seq = r.seq from congrArg Prod.fst hc]
    exact h.below r hr
  case own =>
    intro r' hr' n hn
    obtain ⟨r, hr, hc, -⟩ := hrow hr'
    have hkey : some r'.dedupeKey = some r.dedupeKey := congrArg (fun c : Card => c.2.2.1) hc
    exact h.own r hr n ((Option.some.inj hkey).symm.trans hn)
  case engine =>
    intro n hn r' hr'
    obtain ⟨r, hr, hc, hpost⟩ := hrow hr'
    rw [show r'.seq = r.seq from congrArg Prod.fst hc]
    rcases h.engine n hn r hr with hlt | ⟨heq, hposted⟩
    · exact .inl hlt
    · exact .inr ⟨heq, hpost (heq ▸ hn) hposted⟩

/-- The row the pass has in hand. -/
structure Hand (w : World) (row : PendingInbound) (posting written : Bool) : Prop where
  queued : ∃ r ∈ w.tables.pending, row.card = r.card ∧ (posting = true → r.posting = true)
  head : ∀ r ∈ w.tables.pending, row.seq ≤ r.seq
  fresh : written = false → ∀ n ∈ w.engine, n < row.seq

def InHand (w : World) : Prop :=
  match w.phase with
  | .idle => True
  | .looping => True
  | .claimed row => Hand w row false false
  | .saying row written => Hand w row true written

structure Valid (w : World) : Prop where
  sound : Sound w
  hand : InHand w

/-- Rows that join the queue behind the one in hand. -/
theorem hand_append {w' : World} (h : InHand w) (hphase : w'.phase = w.phase) (hengine : w'.engine = w.engine)
    {more : List PendingInbound} (hpending : w'.tables.pending = w.tables.pending ++ more)
    (hbehind : ∀ r ∈ w.tables.pending, ∀ r' ∈ more, r.seq < r'.seq) : InHand w' := by
  have hone : ∀ {row : PendingInbound} {posting written : Bool}, Hand w row posting written → Hand w' row posting written := by
    intro row posting written hhand
    obtain ⟨r, hr, hcard, hposting⟩ := hhand.queued
    refine ⟨⟨r, hpending ▸ List.mem_append_left _ hr, hcard, hposting⟩, fun r' hr' => ?_, fun hw n hn => ?_⟩
    · rcases List.mem_append.1 (hpending ▸ hr') with hr' | hr'
      · exact hhand.head r' hr'
      · rw [show row.seq = r.seq from congrArg Prod.fst hcard]
        exact (hbehind r hr r' hr').le
    · exact hhand.fresh hw n (hengine ▸ hn)
  unfold InHand at h ⊢
  rw [hphase]
  cases hp : w.phase <;> rw [hp] at h
  · trivial
  · trivial
  · exact hone h
  · exact hone h

theorem hand_same {w' : World} (h : InHand w) (hphase : w'.phase = w.phase) (hengine : w'.engine = w.engine)
    (hpending : w'.tables.pending = w.tables.pending) : InHand w' :=
  hand_append h hphase hengine (hpending.trans (List.append_nil _).symm) fun _ _ _ hr => nomatch hr

theorem receive_hand (h : Valid w) (c : Received) : InHand (receive c w).2 := by
  have hcases := receive_cases c w
  generalize (receive c w).1 = a, (receive c w).2 = w' at hcases
  cases hcases with
  | refused => exact hand_same h.hand rfl rfl rfl
  | woken => exact hand_same h.hand rfl rfl rfl
  | queued t hseen hroom ht =>
    rw [acceptInbound_some ht]
    refine hand_append h.hand rfl rfl rfl fun r hr r' hr' => ?_
    rw [List.mem_singleton.1 hr']
    exact h.sound.below r hr
  | threw => exact h.hand

theorem head_spec {t : Tables} {head : PendingInbound} (h : nextPendingInbound t = some head) :
    head ∈ t.pending ∧ ∀ r ∈ t.pending, head.seq ≤ r.seq := by
  unfold nextPendingInbound at h
  have hperm := Table.orderBy_perm (·.seq) t.pending
  have hpair := Table.pairwise_orderBy (·.seq) t.pending
  cases hsorted : Table.orderBy (·.seq) t.pending with
  | nil => rw [hsorted] at h; cases h
  | cons x rest =>
    rw [hsorted] at h hperm hpair
    cases h
    refine ⟨hperm.mem_iff.1 List.mem_cons_self, fun r hr => ?_⟩
    rcases List.mem_cons.1 (hperm.mem_iff.2 hr) with rfl | hr
    · exact le_rfl
    · exact (List.pairwise_cons.1 hpair).1 r hr

theorem nextHead_valid (h : Valid w) (hphase : w.phase = .looping) (v : HeadView) : Valid (nextHead v w) := by
  have hloop : ∀ {row : PendingInbound} {outcome : InboundOutcome} {reason : Option Str},
      InHand (settle row outcome reason w) := by
    intro row outcome reason
    simp only [InHand, settle, hphase]
  unfold nextHead
  split
  · exact ⟨phase_sound h.sound _, trivial⟩
  · rename_i head hhead
    obtain ⟨hmem, hmin⟩ := head_spec hhead
    split
    · exact ⟨settle_sound h.sound hmem rfl (.inr (.inl rfl)) _, hloop⟩
    · rename_i hposting
      split
      · exact ⟨phase_sound h.sound _, trivial⟩
      · split
        · exact ⟨settle_sound h.sound hmem rfl (.inr (.inr rfl)) _, hloop⟩
        · split
          · exact ⟨settle_sound h.sound hmem rfl (.inl rfl) _, hloop⟩
          · split
            · exact ⟨settle_sound h.sound hmem rfl (.inr (.inl rfl)) _, hloop⟩
            · split
              · exact ⟨phase_sound h.sound _, trivial⟩
              · have hupdated := update_sound (p := (·.seq == head.seq)) (f := fun r =>
                  { r with
                    attempts := r.attempts + 1
                    nextAt := w.clock + (INBOUND_RETRY_MS[min head.attempts (INBOUND_RETRY_MS.length - 1)]?).getD 0 })
                  h.sound (fun _ => rfl) (fun _ _ _ _ hp => hp)
                refine ⟨phase_sound hupdated _, ?_, ?_, ?_⟩
                · refine ⟨_, List.mem_map.2 ⟨head, hmem, if_pos (beq_self_eq_true _)⟩, rfl, fun h => by cases h⟩
                · intro r' hr'
                  obtain ⟨r, hr, rfl⟩ := List.mem_map.1 hr'
                  split <;> exact hmin r hr
                · intro _ n hn
                  rcases h.sound.engine n hn head hmem with hlt | ⟨-, hp⟩
                  · exact hlt
                  · exact absurd hp hposting

/-- The numbers a fold has been over are not queued any more. -/
theorem mem_expire (seqs : List Nat) (hs : Sound w) :
    let after := seqs.foldl (fun w seq =>
      match pendingInboundRow seq w.tables with
      | none => w
      | some row => settle row .failed (some (expiredReason row)) w) w
    Sound after ∧ after.phase = w.phase ∧ ∀ r ∈ after.tables.pending, r ∈ w.tables.pending ∧ r.seq ∉ seqs := by
  induction seqs generalizing w with
  | nil => exact ⟨hs, rfl, fun r hr => ⟨hr, List.not_mem_nil⟩⟩
  | cons seq seqs ih =>
    dsimp only [List.foldl_cons]
    cases hrow : pendingInboundRow seq w.tables with
    | none =>
      obtain ⟨hsound, hphase, hleft⟩ := ih hs
      refine ⟨hsound, hphase, fun r hr => ⟨(hleft r hr).1, fun hin => ?_⟩⟩
      have hnone := Table.one_eq_none.1 hrow r (hleft r hr).1
      rcases List.mem_cons.1 hin with rfl | hin
      · exact absurd hnone (by simp)
      · exact (hleft r hr).2 hin
    | some row =>
      have hmem : row ∈ w.tables.pending := Table.one_mem hrow
      have hseq : row.seq = seq := by simpa using Table.one_some hrow
      obtain ⟨hsound, hphase, hleft⟩ := ih (settle_sound hs hmem rfl (.inr (.inl rfl)) (some (expiredReason row)))
      refine ⟨hsound, hphase, fun r hr => ?_⟩
      obtain ⟨hold, hne⟩ := mem_settle.1 (hleft r hr).1
      refine ⟨hold, fun hin => ?_⟩
      rcases List.mem_cons.1 hin with rfl | hin
      · exact hne hseq.symm
      · exact (hleft r hr).2 hin

theorem expire_spec (h : Sound w) :
    Sound (expire w) ∧ ∀ r ∈ (expire w).tables.pending, w.clock - INBOUND_MAX_AGE_MS < r.receivedAt := by
  obtain ⟨hsound, -, hleft⟩ := mem_expire (expiredPendingInbound w.clock w.tables) h
  refine ⟨hsound, fun r hr => ?_⟩
  obtain ⟨hold, hnot⟩ := hleft r hr
  by_contra hage
  refine hnot (List.mem_map.2 ⟨r, List.mem_filter.2 ⟨?_, decide_eq_true (not_lt.1 hage)⟩, rfl⟩)
  exact (Table.orderBy_perm (·.seq) w.tables.pending).mem_iff.2 hold

theorem say_valid (h : Valid w) (hphase : w.phase = .claimed row) :
    Valid { w with tables := markPostingInbound row.seq w.tables, phase := .saying row false } := by
  have hhand := h.hand
  simp only [InHand, hphase] at hhand
  have hupdated := update_sound (p := (·.seq == row.seq)) (f := fun r => { r with posting := true }) h.sound
    (fun _ => rfl) (fun _ _ _ _ _ => rfl)
  obtain ⟨r, hr, hcard, -⟩ := hhand.queued
  have hseq : (r.seq == row.seq) = true := beq_iff_eq.2 (congrArg Prod.fst hcard).symm
  refine ⟨phase_sound hupdated _, ?_, ?_, fun _ => hhand.fresh rfl⟩
  · exact ⟨_, List.mem_map.2 ⟨r, hr, if_pos hseq⟩, hcard, fun _ => rfl⟩
  · intro r' hr'
    obtain ⟨r, hr, rfl⟩ := List.mem_map.1 hr'
    split <;> exact hhand.head r hr

theorem write_valid (h : Valid w) (hphase : w.phase = .saying row false) :
    Valid { w with engine := w.engine ++ [row.seq], phase := .saying row true } := by
  have hhand := h.hand
  simp only [InHand, hphase] at hhand
  obtain ⟨r, hr, hcard, hposting⟩ := hhand.queued
  have hseq : row.seq = r.seq := congrArg Prod.fst hcard
  have hs := h.sound
  have hone : ∀ r' ∈ w.tables.pending, r'.seq = r.seq → r' = r := by
    intro r' hr' heq
    by_contra hne
    have hpair : w.tables.pending.Pairwise fun a b => a.seq ≠ b.seq := hs.sorted.imp fun hlt => Nat.ne_of_lt hlt
    have : Std.Symm fun a b : PendingInbound => a.seq ≠ b.seq := ⟨fun _ _ hab => hab.symm⟩
    exact hpair.forall hr' hr hne heq
  refine
    ⟨{ hs with engineSorted := ?sorted, engineBelow := ?below, engine := ?engine, posted := ?posted },
      ⟨r, hr, hcard, hposting⟩, hhand.head, nofun⟩
  case sorted =>
    refine List.pairwise_append.2 ⟨hs.engineSorted, List.pairwise_singleton _ _, fun n hn m hm => ?_⟩
    rw [List.mem_singleton.1 hm]
    exact hhand.fresh rfl n hn
  case below =>
    intro n hn
    rcases List.mem_append.1 hn with hn | hn
    · exact hs.engineBelow n hn
    · rw [List.mem_singleton.1 hn, hseq]
      exact hs.below r hr
  case engine =>
    intro n hn r' hr'
    rcases List.mem_append.1 hn with hn | hn
    · exact hs.engine n hn r' hr'
    · rw [List.mem_singleton.1 hn]
      rcases Nat.lt_or_eq_of_le (hhand.head r' hr') with hlt | heq
      · exact .inl hlt
      · have hsame := hone r' hr' (heq.symm.trans hseq)
        exact .inr ⟨heq, hsame ▸ hposting rfl⟩
  case posted =>
    intro n hn
    rcases List.mem_append.1 hn with hn | hn
    · exact hs.posted n hn
    · obtain ⟨p, hp, -, hpseq, -⟩ := push_of_row hs hr
      rw [List.mem_singleton.1 hn, hseq]
      exact List.mem_filterMap.2 ⟨p, hp, hpseq⟩

theorem postThrew_valid (h : Sound w) {posting : Bool} (hhand : Hand w row posting false) (error : Str) :
    Valid (postThrew row error w) := by
  obtain ⟨r, hr, hcard, -⟩ := hhand.queued
  unfold postThrew
  split
  · exact ⟨phase_sound (settle_sound h hr hcard (.inr (.inl rfl)) _) _, trivial⟩
  · refine ⟨phase_sound (update_sound (p := (·.seq == row.seq))
      (f := fun r => { r with posting := false, lastError := some ((error.take 300).take 500) }) h (fun _ => rfl)
      fun r' _ hrow hin _ => ?_) _, trivial⟩
    have hlt := hhand.fresh rfl r'.seq hin
    rw [beq_iff_eq.1 hrow] at hlt
    exact absurd hlt (Nat.lt_irrefl _)

/-- No push names the empty string as its key, and none is answered six days or more after it arrived. -/
def Keyed : Event → Prop
  | .received c => c.key ≠ some [] ∧ (c.age : Int) < INBOUND_KEEP_MS - INBOUND_DEDUPE_MS
  | _ => True

instance : DecidablePred Keyed
  | .received c => inferInstanceAs (Decidable (c.key ≠ some [] ∧ (c.age : Int) < INBOUND_KEEP_MS - INBOUND_DEDUPE_MS))
  | .tick _ | .refused .. | .passStart .. | .next _ | .say | .write | .returned | .threw _ | .crash => .isTrue trivial

theorem refused_untaken {outcome : InboundOutcome}
    (h : [InboundOutcome.too_large, .failed, .ignored, .rejected, .malformed].contains outcome = true) (hookId alias_ : String)
    (reason : Str) (now : Int) : (recordOf hookId alias_ outcome (some reason) none now).taken = false := by
  cases outcome <;> first | rfl | exact absurd h (by decide)

theorem step_valid (e : Event) (w : World) (h : Valid w) (hkeyed : Keyed e) : Valid (World.step e w).2 := by
  cases e with
  | tick ms => exact ⟨tick_sound h.sound ms, hand_same h.hand rfl rfl rfl⟩
  | received c => exact ⟨receive_sound h.sound hkeyed.2, receive_hand h c⟩
  | refused hookId alias_ age outcome reason =>
    dsimp only [World.step]
    split
    · rename_i hout
      refine ⟨record_sound h.sound (refused_untaken hout ..) ?_, hand_same h.hand rfl rfl rfl⟩
      dsimp only [recordOf]
      omega
    · exact h
  | passStart held lifted =>
    dsimp only [World.step]
    split
    · refine ⟨phase_sound ?_ _, trivial⟩
      split
      · exact h.sound
      · exact (expire_spec h.sound).1
    · exact h
  | next v =>
    dsimp only [World.step]
    split
    · rename_i hphase
      exact nextHead_valid h hphase v
    · exact h
  | say =>
    dsimp only [World.step]
    split
    · rename_i row hphase
      exact say_valid h hphase
    · exact h
  | write =>
    dsimp only [World.step]
    split
    · rename_i row hphase
      exact write_valid h hphase
    · exact h
  | returned =>
    dsimp only [World.step]
    split
    · rename_i row written hphase
      have hhand := h.hand
      simp only [InHand, hphase] at hhand
      obtain ⟨r, hr, hcard, -⟩ := hhand.queued
      exact ⟨phase_sound (settle_sound h.sound hr hcard (.inl rfl) _) _, trivial⟩
    · exact h
  | threw error =>
    have hhand := h.hand
    dsimp only [World.step]
    split
    · rename_i row hphase
      simp only [InHand, hphase] at hhand
      exact postThrew_valid h.sound hhand error
    · rename_i row hphase
      simp only [InHand, hphase] at hhand
      exact postThrew_valid h.sound hhand error
    · exact h
  | crash => exact ⟨phase_sound h.sound _, trivial⟩

theorem valid_empty : Valid World.empty := ⟨sound_empty, trivial⟩

end Pass

/-! ## Every history -/

/-- Whatever order calls, passes and crashes come in: a key is taken once, a minute takes thirty pushes, an accepted push
ends once, with its record, and the engine takes a push at most once, in the order they were accepted. -/
theorem accepted_once (events : List Event) (h : ∀ e ∈ events, Keyed e) :
    (∀ x ∈ History.turns World.step events World.empty, ∀ c, x.act = .received c → ∃ a, x.answer = some a ∧
      a.outcome.isSome = true ∧ ∀ key, c.key = some key →
        (a.outcome = some .duplicate ↔ Held x.before c.hookId key (x.before.clock - c.age)) ∧
        (Held x.before c.hookId key (x.before.clock - c.age) → a.accepted = false ∧ x.after.pushes = x.before.pushes)) ∧
    (∀ hookId start, (World.run events).pushes.countP (inMinute hookId start) ≤ INBOUND_PER_MINUTE) ∧
    (∀ p ∈ (World.run events).pushes,
      (p.ends = [] ∧ ∃ r ∈ (World.run events).tables.pending, r.card = p.card) ∨
        (∀ r ∈ (World.run events).tables.pending, some r.seq ≠ p.seq) ∧ ∃ e, p.ends = [e] ∧ Final p e) ∧
    (∀ q : String → Option DedupeKey → Int → Bool,
      (∀ hook key at_, q hook key at_ = true → (World.run events).clock - INBOUND_KEEP_MS ≤ at_) →
        (World.run events).tables.events.countP (fun e => e.taken && q e.hookId e.dedupeKey e.receivedAt) =
          (World.run events).pushes.countP fun p => p.handled && q p.hookId p.key p.at_) ∧
    (∀ x ∈ History.turns World.step events World.empty, ∀ lifted, x.act = .passStart false lifted → x.before.phase = .idle →
      (∀ at_ ∈ lifted, INBOUND_MAX_AGE_MS ≤ x.before.clock - at_) →
        ∀ r ∈ x.after.tables.pending, x.before.clock - INBOUND_MAX_AGE_MS < r.receivedAt) ∧
    ((World.run events).pushes.filterMap (·.seq)).Pairwise (· < ·) ∧
    (World.run events).engine.Pairwise (· < ·) ∧
    (∀ n ∈ (World.run events).engine, n ∈ (World.run events).pushes.filterMap (·.seq)) := by
  have hrun : Valid (World.run events) := History.final_permitted valid_empty step_valid h
  have hs := hrun.sound
  refine ⟨?_, hs.rate, ?_, ?_, ?_, hs.seqs, hs.engineSorted, hs.posted⟩
  · refine History.forall_turns_guarded valid_empty step_valid ?_ h
    rintro e w hw (hkeyed : Keyed e) c hact
    have hact : e = .received c := hact
    subst hact
    obtain ⟨hsome, hkey⟩ := receive_answer hw.sound hkeyed.2 hkeyed.1
    exact ⟨_, rfl, hsome, hkey⟩
  · intro p hp
    rcases hs.ends p hp with hopen | hended
    · exact .inl ⟨hopen, row_of_push hs hp hopen⟩
    · refine .inr ⟨fun r hr hseq => ?_, hended⟩
      obtain ⟨p', hp', hopen, hseq', -⟩ := push_of_row hs hr
      rw [push_inj hs hp hp' hseq.symm hseq', hopen] at hended
      obtain ⟨e, he, -⟩ := hended
      cases he
  · intro q hq
    rw [hs.records q hq]
    refine List.countP_congr fun p hp => ?_
    rw [Bool.and_eq_true, Bool.and_eq_true, taken_iff_handled hs hp]
  · refine History.forall_turns_guarded valid_empty step_valid ?_ h
    rintro e w hw - lifted hact hidle hlifted
    have hact : e = .passStart false lifted := hact
    have hidle : w.phase = .idle := hidle
    subst hact
    have hfresh : (lifted.any fun at_ => decide (w.clock - at_ < INBOUND_MAX_AGE_MS)) = false := by
      cases lifted with
      | none => rfl
      | some at_ => exact decide_eq_false (not_lt.2 (hlifted at_ rfl))
    dsimp only [History.turn, World.step]
    rw [if_pos ⟨hidle, rfl⟩, hfresh]
    exact (expire_spec hw.sound).2

/-- A push with its key, as the gateway's answer makes it. -/
def pushed (key : Option Str) : Received := ⟨"h", "mail", 0, key, true, js "new mail", none, "m1"⟩

/-- A pass that posts what is at the head. -/
def posts : List Event := [.passStart false none, .next ⟨0, false, some "m1", false, none⟩, .say, .write, .returned]

/-- A push with a key, sent again before and after it is posted. -/
def sentAgain (key : Str) : List Event :=
  [.received (pushed (some key)), .received (pushed (some key))] ++ posts ++ [.received (pushed (some key))]

theorem accepted_once_named : (∀ e ∈ sentAgain (js "k"), Keyed e) ∧
    ((World.run (sentAgain (js "k"))).pushes.filterMap (·.seq)).Pairwise (· < ·) :=
  have hkeyed : ∀ e ∈ sentAgain (js "k"), Keyed e := by decide
  ⟨hkeyed, (accepted_once (sentAgain (js "k")) hkeyed).2.2.2.2.2.1⟩

/-- With an empty key the repeat throws while the push is queued, and is accepted again once it was delivered. -/
theorem twice_accepted :
    ((History.turns World.step (sentAgain []) World.empty).filterMap (·.answer)).map (·.outcome) =
      [some .delivered, none, some .delivered] ∧
    (World.run (sentAgain [])).pushes.map (fun p => (p.hookId, p.key, p.at_)) =
      [("h", some (.named []), 0), ("h", some (.named []), 0)] ∧
    ((World.run (sentAgain [])).pushes.map fun p => p.ends.map (·.outcome)) = [[.delivered], []] := by
  decide +kernel

end Antiproton.Inbound
