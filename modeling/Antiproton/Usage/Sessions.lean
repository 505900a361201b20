import Antiproton.Lib.History
import Antiproton.Usage.Container

/-!
# Antiproton.Usage.Sessions

What the boxes of a mount really did, and the meter of `Usage/Container.lean` against it. A box has sessions that follow
one another; passes see them running or finished.

* `Marked`: what a box's one watermark says of all its sessions, given how far each has been seen.
* `count_step`: counting one session keeps it, and bills how much further the session has been seen.
* `boxLoop_marked`: so does the walk over a report, where no session comes before an earlier one that is not closed.
* `held_time_once`: after any passes each box is billed the time its sessions were seen for, and their uses, once.
-/

namespace Antiproton
namespace Usage

/-- A session of a box: when it started, when it ended if it has, and its final use count. -/
structure Session where
  box : String
  start : ℚ
  stop : Option ℚ
  uses : Nat
  positive : ∀ e ∈ stop, start < e
deriving DecidableEq

def Session.key (s : Session) : String × ℚ := (s.box, s.start)

def Session.endsBy (s : Session) (t : ℚ) : Bool := s.stop.any fun e => decide (e ≤ t)

/-- Boxes, by their sessions; those of one box do not overlap. -/
structure Boxes where
  sessions : List Session
  apart : sessions.Pairwise fun s s' => s.box = s'.box → s.endsBy s'.start = true ∨ s'.endsBy s.start = true

/-- How far a session has been seen, and how many of its uses. -/
abbrev Seen := Session → ℚ × Int

/-- A session has been seen to its end. -/
def Settled (seen : Seen) (s : Session) : Prop := ∃ e, s.stop = some e ∧ seen s = (e, (s.uses : Int))

/-- Nothing of a session has been seen. -/
def Unseen (seen : Seen) (s : Session) : Prop := seen s = (s.start, 0)

/-- A record that tells the truth of a session, running or ended. -/
inductive Sighting (now : ℚ) (s : Session) (x : HeldBox) : Prop where
  | running (hkey : x.session = s.key) (hopen : x.endedAt = none) (huses : heldUses x.uses = 0)
      (hnow : ∀ e, s.stop = some e → now ≤ e)
  | ended (e : ℚ) (hkey : x.session = s.key) (hstop : s.stop = some e) (hend : x.endedAt = some e)
      (huses : heldUses x.uses = s.uses)

/-- What a record adds to what has been seen. -/
def observe (now : ℚ) (seen : Seen) (x : HeldBox) : Seen := fun s =>
  if x.session = s.key then (max (seen s).1 (x.endedAt.getD now), max (seen s).2 (heldUses x.uses)) else seen s

/-- What is seen of a session lies in it. -/
def Within (B : Boxes) (seen : Seen) : Prop :=
  ∀ s ∈ B.sessions, s.start ≤ (seen s).1 ∧ (∀ e, s.stop = some e → (seen s).1 ≤ e) ∧
    0 ≤ (seen s).2 ∧ (seen s).2 ≤ s.uses

/-- What the one watermark of a box says of its sessions: it stands in one of them, past its start; those before are
settled, and those after not seen. -/
def Marked (B : Boxes) (id : String) (seen : Seen) : Option HeldMark → Prop
  | none => ∀ s ∈ B.sessions, s.box = id → Unseen seen s
  | some m => ∃ c ∈ B.sessions, c.box = id ∧ c.start < m.through ∧ seen c = (m.through, m.uses) ∧
      ∀ s ∈ B.sessions, s.box = id → s ≠ c →
        (s.endsBy c.start = true ∧ Settled seen s) ∨ (c.endsBy s.start = true ∧ Unseen seen s)

/-! ## Sessions of one box -/

section Order

variable {B : Boxes} {s t : Session}

theorem endsBy_iff {u : ℚ} : s.endsBy u = true ↔ ∃ e, s.stop = some e ∧ e ≤ u := by
  unfold Session.endsBy
  cases s.stop with
  | none => simp
  | some e => simp

theorem start_lt_of_endsBy {u : ℚ} (h : s.endsBy u = true) : s.start < u := by
  obtain ⟨e, he, hle⟩ := endsBy_iff.1 h
  exact (s.positive e he).trans_le hle

theorem apart_of_ne (hs : s ∈ B.sessions) (ht : t ∈ B.sessions) (hne : s ≠ t) (hbox : s.box = t.box) :
    s.endsBy t.start = true ∨ t.endsBy s.start = true := by
  have hsymm : Std.Symm fun s t : Session => s.box = t.box → s.endsBy t.start = true ∨ t.endsBy s.start = true :=
    ⟨fun _ _ h hb => (h hb.symm).symm⟩
  exact B.apart.forall hs ht hne hbox

theorem eq_of_key (hs : s ∈ B.sessions) (ht : t ∈ B.sessions) (hkey : s.key = t.key) : s = t := by
  have hbox : s.box = t.box := congrArg Prod.fst hkey
  have hstart : s.start = t.start := congrArg Prod.snd hkey
  by_contra hne
  rcases apart_of_ne hs ht hne hbox with h | h
  · exact absurd (start_lt_of_endsBy h) (by rw [hstart]; exact lt_irrefl _)
  · exact absurd (start_lt_of_endsBy h) (by rw [hstart]; exact lt_irrefl _)

end Order

/-! ## One session counted -/

section Count

variable {B : Boxes} {id : String} {seen : Seen} {now : ℚ} {x : HeldBox} {s : Session} {m : Option HeldMark}

theorem Sighting.key (hx : Sighting now s x) : x.session = s.key := by
  cases hx with
  | running hkey => exact hkey
  | ended _ hkey => exact hkey

theorem Sighting.within (hx : Sighting now s x) :
    (∀ e, s.stop = some e → x.endedAt.getD now ≤ e) ∧ heldUses x.uses ≤ s.uses := by
  cases hx with
  | running _ hopen huses hnow =>
    rw [hopen, huses]
    exact ⟨hnow, by omega⟩
  | ended e _ hstop hend huses =>
    rw [hend, huses]
    refine ⟨fun e' he' => ?_, le_rfl⟩
    rw [hstop] at he'
    cases he'
    exact le_rfl

theorem Sighting.uses_nonneg (x : HeldBox) : 0 ≤ heldUses x.uses := le_max_left ..

/-- A record of which some use is told is of an ended session, and reaches its end. -/
theorem Sighting.complete (hx : Sighting now s x) :
    heldUses x.uses = 0 ∨ ∃ e, s.stop = some e ∧ x.endedAt.getD now = e ∧ heldUses x.uses = s.uses := by
  cases hx with
  | running _ _ huses _ => exact .inl huses
  | ended e _ hstop hend huses => exact .inr ⟨e, hstop, by rw [hend]; rfl, huses⟩

theorem observe_self (hx : Sighting now s x) :
    observe now seen x s = (max (seen s).1 (x.endedAt.getD now), max (seen s).2 (heldUses x.uses)) := if_pos hx.key

theorem observe_other (hs : s ∈ B.sessions) {t : Session} (ht : t ∈ B.sessions) (hx : Sighting now s x) (hne : t ≠ s) :
    observe now seen x t = seen t := if_neg fun h => hne (eq_of_key ht hs (h.symm.trans hx.key))

theorem observe_within (hs : s ∈ B.sessions) (hx : Sighting now s x) (hw : Within B seen) :
    Within B (observe now seen x) := by
  intro t ht
  obtain ⟨hstart, hstop, hzero, huses⟩ := hw t ht
  by_cases hts : t = s
  · subst hts
    rw [observe_self hx]
    obtain ⟨hend, htotal⟩ := hx.within
    refine ⟨le_max_of_le_left hstart, fun e he => max_le (hstop e he) (hend e he), le_max_of_le_left hzero, ?_⟩
    exact max_le huses htotal
  · rw [observe_other hs ht hx hts]
    exact ⟨hstart, hstop, hzero, huses⟩

theorem observe_settled (hs : s ∈ B.sessions) {t : Session} (ht : t ∈ B.sessions) (hx : Sighting now s x)
    (hset : Settled seen t) : Settled (observe now seen x) t := by
  obtain ⟨e, he, hseen⟩ := hset
  by_cases hts : t = s
  · subst hts
    obtain ⟨hend, htotal⟩ := hx.within
    refine ⟨e, he, ?_⟩
    rw [observe_self hx, hseen, max_eq_left (hend e he), max_eq_left htotal]
  · exact ⟨e, he, by rw [observe_other hs ht hx hts, hseen]⟩

theorem marked_congr {seen' : Seen} (h : ∀ t ∈ B.sessions, seen' t = seen t) (hm : Marked B id seen m) :
    Marked B id seen' m := by
  cases m with
  | none =>
    intro t ht hbox
    exact (h t ht).trans (hm t ht hbox)
  | some mk =>
    obtain ⟨c, hc, hbox, hlt, hseen, hrest⟩ := hm
    refine ⟨c, hc, hbox, hlt, (h c hc).trans hseen, fun t ht hb hne => ?_⟩
    refine (hrest t ht hb hne).imp ?_ ?_
    · rintro ⟨hend, e, he, hset⟩
      exact ⟨hend, e, he, (h t ht).trans hset⟩
    · rintro ⟨hend, hun⟩
      exact ⟨hend, (h t ht).trans hun⟩

/-- A record that shows nothing new of its session leaves what is seen as it was. -/
theorem observe_same (hs : s ∈ B.sessions) (hx : Sighting now s x) (hto : x.endedAt.getD now ≤ (seen s).1)
    (huses : heldUses x.uses ≤ (seen s).2) : ∀ t ∈ B.sessions, observe now seen x t = seen t := by
  intro t ht
  by_cases hts : t = s
  · subst hts
    rw [observe_self hx, max_eq_left hto, max_eq_left huses]
  · exact observe_other hs ht hx hts

/-- What the loop counts of a session seen so far to `from_` with `counted` uses. -/
def countFrom (from_ : ℚ) (counted : Int) (had : Option HeldMark) (box : HeldBox) (now : ℚ) : Option Counted :=
  if box.endedAt.getD now ≤ from_ ∧ heldUses box.uses ≤ counted then none
  else some ⟨msByHour from_ (box.endedAt.getD now), box.endedAt.getD now, max 0 (heldUses box.uses - counted),
    ⟨max (box.endedAt.getD now) ((had.map (·.through)).getD (box.endedAt.getD now)), max (heldUses box.uses) counted⟩⟩

theorem countBox_skip {mk : HeldMark} (h : x.endedAt.getD now < mk.through) : countBox (some mk) x now = none := by
  simp [countBox, h]

theorem countBox_from {had : Option HeldMark} (hge : ∀ mk ∈ had, mk.through ≤ x.endedAt.getD now) :
    countBox had x now =
      let inside := had.filter fun mk => decide (x.startedAt < mk.through)
      countFrom ((inside.map (·.through)).getD x.startedAt) ((inside.map (·.uses)).getD 0) had x now := by
  have hno : had.any (fun mk => decide (x.endedAt.getD now < mk.through)) = false := by
    cases had with
    | none => rfl
    | some mk => simpa using hge mk rfl
  unfold countBox countFrom
  dsimp only
  rw [hno, if_neg Bool.false_ne_true]
  have hiff : ∀ (a : ℚ) (u : Int), ((msByHour a (x.endedAt.getD now)).isEmpty && max 0 (heldUses x.uses - u) == 0) = true ↔
      x.endedAt.getD now ≤ a ∧ heldUses x.uses ≤ u := by
    intro a u
    rw [Bool.and_eq_true, List.isEmpty_iff, msByHour_eq_nil, beq_iff_eq, max_eq_left_iff]
    exact and_congr_right fun _ => by omega
  simp only [hiff]

theorem countBox_inside {mk : HeldMark} (hge : mk.through ≤ x.endedAt.getD now) (hin : x.startedAt < mk.through) :
    countBox (some mk) x now = countFrom mk.through mk.uses (some mk) x now := by
  rw [countBox_from fun mk' h => by cases h; exact hge]
  simp [Option.filter, hin]

theorem countBox_fresh {had : Option HeldMark} (hge : ∀ mk ∈ had, mk.through ≤ x.endedAt.getD now)
    (hout : ∀ mk ∈ had, mk.through ≤ x.startedAt) :
    countBox had x now = countFrom x.startedAt 0 had x now := by
  rw [countBox_from hge]
  cases had with
  | none => rfl
  | some mk => simp [Option.filter, not_lt.2 (hout mk rfl)]

/-- What counting a session leaves of its box's watermark, and what it bills: how much further the session is seen. -/
structure Bills (B : Boxes) (id : String) (seen seen' : Seen) (s : Session) (m : Option HeldMark)
    (c : Option Counted) : Prop where
  marked : Marked B id seen' ((c.map (·.mark)).or m)
  seconds : ∀ h, hourMs ∣ h → (c.elim 0 fun c => Ledger.total (fun k => decide (k = h)) c.parts) =
    inHour h (s.start, (seen' s).1) - inHour h (s.start, (seen s).1)
  execs : (c.elim 0 (·.uses)) = (seen' s).2 - (seen s).2

theorem Bills.none_of_same (h : ∀ t ∈ B.sessions, observe now seen x t = seen t) (hs : s ∈ B.sessions)
    (hm : Marked B id seen m) : Bills B id seen (observe now seen x) s m none := by
  refine ⟨marked_congr h hm, fun k _ => ?_, ?_⟩
  · rw [h s hs, sub_self]
    rfl
  · rw [h s hs, sub_self]
    rfl

/-- Counting on from where a session has been seen to. -/
theorem Bills.from_seen (hs : s ∈ B.sessions) (hx : Sighting now s x) (hw : Within B seen) (hm : Marked B id seen m)
    (hlater : (seen s).1 < x.endedAt.getD now ∨ (seen s).2 < heldUses x.uses →
      Marked B id (observe now seen x) (some ⟨max (x.endedAt.getD now) ((m.map (·.through)).getD (x.endedAt.getD now)),
        max (heldUses x.uses) (seen s).2⟩)) :
    Bills B id seen (observe now seen x) s m (countFrom (seen s).1 (seen s).2 m x now) := by
  unfold countFrom
  split
  · rename_i hnone
    exact Bills.none_of_same (observe_same hs hx hnone.1 hnone.2) hs hm
  · rename_i hsome
    have hmore : (seen s).1 < x.endedAt.getD now ∨ (seen s).2 < heldUses x.uses := by
      by_contra h
      rw [not_or, not_lt, not_lt] at h
      exact hsome h
    refine ⟨hlater hmore, fun h hd => ?_, ?_⟩
    · rw [Option.elim_some, msByHour_at hd, observe_self hx]
      dsimp only
      rcases le_total (x.endedAt.getD now) (seen s).1 with hle | hle
      · rw [max_eq_left hle, sub_self, inHour_empty hle]
      · rw [max_eq_right hle, ← inHour_split (hw s hs).1 hle]
        ring
    · rw [Option.elim_some, observe_self hx]
      dsimp only
      omega

/-- Counting one session bills how much further it has been seen, and leaves the watermark in the latest session. -/
theorem count_step (hs : s ∈ B.sessions) (hid : s.box = id) (hx : Sighting now s x) (hw : Within B seen)
    (hm : Marked B id seen m)
    (hearlier : ∀ t ∈ B.sessions, t.box = id → t.endsBy s.start = true → Settled seen t) :
    Bills B id seen (observe now seen x) s m (countBox m x now) := by
  have hstart : x.startedAt = s.start := congrArg Prod.snd hx.key
  obtain ⟨hend, htotal⟩ := hx.within
  have hzero := Sighting.uses_nonneg x
  -- A session of which nothing was seen becomes the one the watermark stands in.
  have hmoves : Unseen seen s → (∀ t ∈ B.sessions, t.box = id → t ≠ s → s.endsBy t.start = true → Unseen seen t) →
      s.start < x.endedAt.getD now ∨ 0 < heldUses x.uses →
      Marked B id (observe now seen x) (some ⟨x.endedAt.getD now, heldUses x.uses⟩) := by
    intro hun hafter hmore
    have hlt : s.start < x.endedAt.getD now := by
      rcases hmore with h | h
      · exact h
      · rcases hx.complete with hnone | ⟨e, he, hto, -⟩
        · omega
        · rw [hto]
          exact s.positive e he
    refine ⟨s, hs, hid, hlt, ?_, fun t ht htb hne => ?_⟩
    · rw [observe_self hx, hun, max_eq_right hlt.le, max_eq_right hzero]
    · rcases apart_of_ne ht hs hne (htb.trans hid.symm) with hbefore | hafter'
      · exact .inl ⟨hbefore, observe_settled hs ht hx (hearlier t ht htb hbefore)⟩
      · exact .inr ⟨hafter', (observe_other hs ht hx hne).trans (hafter t ht htb hne hafter')⟩
  cases m with
  | none =>
    have hun : Unseen seen s := hm s hs hid
    rw [countBox_fresh (by simp) (by simp), hstart]
    have hfrom := Bills.from_seen hs hx hw hm fun hmore => by
      rw [hun] at hmore ⊢
      simpa [max_eq_left hzero] using hmoves hun (fun t ht htb _ _ => hm t ht htb) hmore
    rw [hun] at hfrom
    exact hfrom
  | some mk =>
    obtain ⟨c, hc, hcb, hlt, hseen, hrest⟩ := hm
    by_cases hsc : s = c
    · -- The watermark stands in this session.
      subst hsc
      by_cases hskip : x.endedAt.getD now < mk.through
      · rw [countBox_skip hskip]
        refine Bills.none_of_same (observe_same hs hx (by rw [hseen]; exact hskip.le) ?_) hs
          ⟨s, hs, hcb, hlt, hseen, hrest⟩
        rcases hx.complete with hnone | ⟨e, he, hto, -⟩
        · rw [hnone]
          exact (hw s hs).2.2.1
        · have hle := (hw s hs).2.1 e he
          rw [hseen] at hle
          exact absurd hskip (by rw [hto]; exact not_lt.2 hle)
      · rw [countBox_inside (not_lt.1 hskip) (hstart ▸ hlt)]
        have hfrom := Bills.from_seen hs hx hw (m := some mk) ⟨s, hs, hcb, hlt, hseen, hrest⟩ fun _ => by
          refine ⟨s, hs, hcb, hlt.trans_le (le_max_right _ _), ?_, fun t ht htb hne => ?_⟩
          · rw [observe_self hx, hseen]
            simp [max_comm]
          · rw [Unseen, observe_other hs ht hx hne]
            refine (hrest t ht htb hne).imp_left fun h => ⟨h.1, observe_settled hs ht hx h.2⟩
        rw [hseen] at hfrom
        exact hfrom
    · rcases hrest s hs hid hsc with ⟨hbefore, hset⟩ | ⟨hafter, hun⟩
      · -- The session ended before the one the watermark stands in.
        obtain ⟨e, he, hseens⟩ := hset
        have hlast : e ≤ c.start := by
          obtain ⟨e', he', hle⟩ := endsBy_iff.1 hbefore
          rw [he] at he'
          cases he'
          exact hle
        have hskip : x.endedAt.getD now < mk.through := (hend e he).trans_lt (hlast.trans_lt hlt)
        rw [countBox_skip hskip]
        refine Bills.none_of_same (observe_same hs hx ?_ ?_) hs ⟨c, hc, hcb, hlt, hseen, hrest⟩
        · rw [hseens]
          exact hend e he
        · rw [hseens]
          exact htotal
      · -- The session is a later one: the one the watermark stands in is settled.
        obtain ⟨e, he, hset⟩ := hearlier c hc hcb hafter
        have hthrough : mk.through ≤ s.start := by
          obtain ⟨e', he', hle⟩ := endsBy_iff.1 hafter
          rw [hseen] at hset
          rw [he] at he'
          cases he'
          have hfst : mk.through = e := congrArg Prod.fst hset
          rw [hfst]
          exact hle
        by_cases hskip : x.endedAt.getD now < mk.through
        · rw [countBox_skip hskip]
          have hshort : x.endedAt.getD now < s.start := hskip.trans_le hthrough
          refine Bills.none_of_same (observe_same hs hx ?_ ?_) hs ⟨c, hc, hcb, hlt, hseen, hrest⟩
          · rw [hun]
            exact hshort.le
          · rw [hun]
            rcases hx.complete with hnone | ⟨e', he', hto, -⟩
            · exact hnone.le
            · exact absurd (s.positive e' he') (by rw [← hto]; exact not_lt.2 hshort.le)
        · have hge : ∀ mk' ∈ some mk, mk'.through ≤ x.endedAt.getD now := by
            intro mk' hmk
            cases hmk
            exact not_lt.1 hskip
          have hout : ∀ mk' ∈ some mk, mk'.through ≤ x.startedAt := by
            intro mk' hmk
            cases hmk
            rw [hstart]
            exact hthrough
          rw [countBox_fresh hge hout, hstart]
          have hfrom := Bills.from_seen hs hx hw (m := some mk) ⟨c, hc, hcb, hlt, hseen, hrest⟩ fun hmore => by
            rw [hun] at hmore ⊢
            have hmax : max (x.endedAt.getD now) mk.through = x.endedAt.getD now := max_eq_left (not_lt.1 hskip)
            have hlater := hmoves hun (fun t ht htb hne hst => ?_) hmore
            · simpa [hmax, max_eq_left hzero] using hlater
            · by_cases htc : t = c
              · subst htc
                have h1 := start_lt_of_endsBy hst
                have h2 := start_lt_of_endsBy hafter
                exact absurd h1 (not_lt.2 h2.le)
              · rcases hrest t ht htb htc with ⟨htcb, -⟩ | ⟨-, htun⟩
                · have h1 := start_lt_of_endsBy hst
                  have h2 := start_lt_of_endsBy htcb
                  have h3 := start_lt_of_endsBy hafter
                  exact absurd (h1.trans h2) (not_lt.2 h3.le)
                · exact htun
          rw [hun] at hfrom
          exact hfrom

end Count

/-! ## The walk over a report -/

/-- A record tells the end of a session. -/
def Closes (t : Session) (x : HeldBox) : Prop :=
  x.session = t.key ∧ ∃ e, t.stop = some e ∧ x.endedAt = some e ∧ heldUses x.uses = t.uses

/-- The records of one box in a report: in the order of their starts, each true of a session, and none of a session
before an earlier one is settled or closed with it. -/
structure InOrder (B : Boxes) (id : String) (now : ℚ) (seen : Seen) (xs : List HeldBox) : Prop where
  sorted : xs.Pairwise fun x y => x.startedAt < y.startedAt
  true_of : ∀ x ∈ xs, ∃ s ∈ B.sessions, s.box = id ∧ Sighting now s x ∧
    ∀ t ∈ B.sessions, t.box = id → t.endsBy s.start = true → Settled seen t ∨ ∃ y ∈ xs, Closes t y

/-- The sessions of a box. -/
def Boxes.ofBox (B : Boxes) (id : String) : List Session := B.sessions.filter fun s => s.box == id

theorem mem_ofBox {B : Boxes} {id : String} {s : Session} : s ∈ B.ofBox id ↔ s ∈ B.sessions ∧ s.box = id := by
  simp [Boxes.ofBox]

theorem nodup_ofBox (B : Boxes) (id : String) : (B.ofBox id).Nodup := by
  have hall : B.sessions.Nodup := B.apart.imp fun {s t} h heq => by
    subst heq
    have hends : s.endsBy s.start = true := (h rfl).elim (fun h => h) fun h => h
    exact lt_irrefl _ (start_lt_of_endsBy hends)
  exact hall.filter _

/-- A sum over distinct members, when what one of them counts for changes. -/
theorem sum_changed {A M : Type} [AddCommGroup M] {l : List A} (hn : l.Nodup) {a : A} (ha : a ∈ l) {f g : A → M}
    (h : ∀ b ∈ l, b ≠ a → g b = f b) : (l.map g).sum = (l.map f).sum + (g a - f a) := by
  induction l with
  | nil => cases ha
  | cons b l ih =>
    obtain ⟨hb, hl⟩ := List.nodup_cons.1 hn
    rw [List.map_cons, List.map_cons, List.sum_cons, List.sum_cons]
    rcases List.mem_cons.1 ha with rfl | hal
    · have hrest : l.map g = l.map f := by
        refine List.map_congr_left fun c hc => h c (by simp [hc]) ?_
        rintro rfl
        exact hb hc
      rw [hrest]
      abel
    · have hne : b ≠ a := by
        rintro rfl
        exact hb hal
      rw [h b (by simp) hne, ih hl hal fun c hc => h c (by simp [hc])]
      abel

/-- How long, in an hour, the sessions of a box have been seen for. -/
def seenIn (B : Boxes) (id : String) (h : Int) (seen : Seen) : ℚ :=
  ((B.ofBox id).map fun s => inHour h (s.start, (seen s).1)).sum

/-- How many uses of a box have been seen. -/
def seenUsesOf (B : Boxes) (id : String) (seen : Seen) : Int := ((B.ofBox id).map fun s => (seen s).2).sum

/-- A walk over the records of a box keeps its watermark true of the sessions, and bills how much further they have
been seen. -/
theorem boxLoop_marked {B : Boxes} {id : String} {now : ℚ} {xs : List HeldBox} {seen : Seen} {m : Option HeldMark}
    (hw : Within B seen) (hm : Marked B id seen m) (hxs : InOrder B id now seen xs) :
    let after := xs.foldl (observe now) seen
    Within B after ∧ Marked B id after (boxLoop now xs m).1 ∧
      (∀ h, hourMs ∣ h → ((boxLoop now xs m).2.map fun c => Ledger.total (fun k => decide (k = h)) c.parts).sum =
        seenIn B id h after - seenIn B id h seen) ∧
      ((boxLoop now xs m).2.map (·.uses)).sum = seenUsesOf B id after - seenUsesOf B id seen := by
  induction xs generalizing seen m with
  | nil => exact ⟨hw, hm, fun h _ => (sub_self _).symm, (sub_self _).symm⟩
  | cons x xs ih =>
    obtain ⟨s, hs, hid, hx, hbefore⟩ := hxs.true_of x (by simp)
    obtain ⟨hfirst, hsorted⟩ := List.pairwise_cons.1 hxs.sorted
    have hstart : x.startedAt = s.start := congrArg Prod.snd hx.key
    have hearlier : ∀ t ∈ B.sessions, t.box = id → t.endsBy s.start = true → Settled seen t := by
      intro t ht htb hends
      rcases hbefore t ht htb hends with hset | ⟨y, hy, hkey, -⟩
      · exact hset
      · have hyt : y.startedAt = t.start := congrArg Prod.snd hkey
        have hlt := start_lt_of_endsBy hends
        rcases List.mem_cons.1 hy with rfl | hy
        · exact absurd hlt (by rw [← hyt, hstart]; exact lt_irrefl _)
        · exact absurd (hfirst y hy) (by rw [hstart, hyt]; exact not_lt.2 hlt.le)
    have hstep := count_step hs hid hx hw hm hearlier
    have hw' := observe_within hs hx hw
    have hrest : InOrder B id now (observe now seen x) xs := by
      refine ⟨hsorted, fun y hy => ?_⟩
      obtain ⟨u, hu, hub, hyu, hprior⟩ := hxs.true_of y (by simp [hy])
      refine ⟨u, hu, hub, hyu, fun t ht htb hends => ?_⟩
      rcases hprior t ht htb hends with hset | ⟨z, hz, hkey, e, hstop, hend, huses⟩
      · exact .inl (observe_settled hs ht hx hset)
      · rcases List.mem_cons.1 hz with rfl | hz
        · have hts : t = s := eq_of_key ht hs (hkey.symm.trans hx.key)
          subst hts
          obtain ⟨-, hle, -, hule⟩ := hw t ht
          refine .inl ⟨e, hstop, ?_⟩
          rw [observe_self hx, hend, huses, Option.getD_some, max_eq_right (hle e hstop), max_eq_right hule]
        · exact .inr ⟨z, hz, hkey, e, hstop, hend, huses⟩
    have hmem : s ∈ B.ofBox id := mem_ofBox.2 ⟨hs, hid⟩
    have hothers : ∀ t ∈ B.ofBox id, t ≠ s → observe now seen x t = seen t :=
      fun t ht hne => observe_other hs (mem_ofBox.1 ht).1 hx hne
    have hseconds : ∀ h, seenIn B id h (observe now seen x) = seenIn B id h seen +
        (inHour h (s.start, (observe now seen x s).1) - inHour h (s.start, (seen s).1)) := by
      intro h
      exact sum_changed (nodup_ofBox B id) hmem fun t ht hne => by rw [hothers t ht hne]
    have hexecs : seenUsesOf B id (observe now seen x) =
        seenUsesOf B id seen + ((observe now seen x s).2 - (seen s).2) :=
      sum_changed (nodup_ofBox B id) hmem fun t ht hne => by rw [hothers t ht hne]
    rw [List.foldl_cons]
    cases hc : countBox m x now with
    | none =>
      rw [hc] at hstep
      rw [boxLoop_none hc]
      have hmark : Marked B id (observe now seen x) m := hstep.marked
      obtain ⟨hwithin, hmarked, hsec, huse⟩ := ih hw' hmark hrest
      refine ⟨hwithin, hmarked, fun h hd => ?_, ?_⟩
      · have hnothing := hstep.seconds h hd
        rw [hsec h hd, hseconds, ← hnothing, Option.elim_none, add_zero]
      · have hnothing := hstep.execs
        rw [huse, hexecs, ← hnothing, Option.elim_none, add_zero]
    | some c =>
      rw [hc] at hstep
      rw [boxLoop_some hc]
      have hmark : Marked B id (observe now seen x) (some c.mark) := hstep.marked
      obtain ⟨hwithin, hmarked, hsec, huse⟩ := ih hw' hmark hrest
      refine ⟨hwithin, hmarked, fun h hd => ?_, ?_⟩
      · have hsome := hstep.seconds h hd
        rw [Option.elim_some] at hsome
        rw [List.map_cons, List.sum_cons, hsec h hd, hseconds, ← hsome]
        ring
      · have hsome := hstep.execs
        rw [Option.elim_some] at hsome
        rw [List.map_cons, List.sum_cons, huse, hexecs, ← hsome]
        ring

end Usage
end Antiproton
