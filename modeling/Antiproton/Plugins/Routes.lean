import Mathlib.Data.List.Basic
import Antiproton.Plugins.Bridge

/-!
# Antiproton.Plugins.Routes

The decision of a bridge's route table fails closed.

* `classify_at`    — the first row that says something decides, whatever follows it.
* `rules_none`     — a row that lets a request pass on does not meet it, or said no to a body it could read.
* `classify_added` — a refuse row put into a table refuses, or changes nothing.
* `fails_closed`   — all of it, for every table and every request.
-/

namespace Antiproton.Routes

open Js

/-- A request as the table is asked of it. -/
structure Request where
  method : Str
  path : Str
  body : Option Str
  contentType : Option Str
  hasQuery : Bool

/-- What a body predicate is asked: nothing of a request with no body, or the object its body is. -/
inductive Asked (parse : Str → Option Json) : Option Str → Option Json → Prop
  | absent : Asked parse none none
  | object (b : Str) (fields : List (Str × Json)) (h : parse b = some (.obj fields)) :
      Asked parse (some b) (some (.obj fields))

section

variable (parse : Str → Option Json) (decl : BridgeDecl) (req : Request)

def classify (routes : List RouteEntry) : RouteClass :=
  classifyRoute parse { decl with routes := routes } req.method req.path req.body req.contentType req.hasQuery

def held : RouteClass := .unlistedWrite decl.unlistedWriteKey

/-- Whether a row's method, pattern and query condition match. -/
def Matches (row : RouteEntry) : Prop := row.meets (upperAscii req.method) req.path req.hasQuery = true

/-- What a row says of the request: nothing, where it leaves it to the next. -/
def ruling (row : RouteEntry) : Option RouteClass :=
  row.rules (held decl) (upperAscii req.method) req.path req.body (parsedBody parse req.body)
    (isJsonContentType req.contentType) req.hasQuery

/-- The row's predicate answered `answer` on a body sent as JSON. -/
def Answered (asked : Option Str → Option Json → Prop) (row : RouteEntry) (answer : Bool) : Prop :=
  isJsonContentType req.contentType = true ∧
    ∃ check arg, row.body = some check ∧ asked req.body arg ∧ check arg req.body = some answer

/-- The row has a body check, and it could not be judged. -/
def Unjudged (row : RouteEntry) : Prop :=
  ∃ check, row.body = some check ∧ (isJsonContentType req.contentType = false ∨ (∀ arg, ¬ Asked parse req.body arg) ∨
    ∃ arg, Asked parse req.body arg ∧ check arg req.body = none)

/-- What failing closed is, with `asked` the bodies a listing may rest on. -/
structure FailsClosed (asked : Option Str → Option Json → Prop) : Prop where
  refuses : ∀ before row after message unsure, decl.routes = before ++ row :: after →
    (∀ r ∈ before, ruling parse decl req r = none) → row.rule = .refuse message unsure → Matches req row →
    (∃ m, classify parse decl req decl.routes = .refused m) ∨ Answered req (Asked parse) row false
  holds : ∀ before row after key, decl.routes = before ++ row :: after →
    (∀ r ∈ before, ruling parse decl req r = none) → row.rule = .key key → Matches req row → Unjudged parse req row →
    ∀ after', classify parse decl req (before ++ row :: after') = held decl
  lists : ∀ key, classify parse decl req decl.routes = .listed key →
    ∃ row ∈ decl.routes, row.rule = .key key ∧ Matches req row ∧ (row.body = none ∨ Answered req asked row true)
  added : ∀ before row after message unsure, decl.routes = before ++ after → row.rule = .refuse message unsure →
    (classify parse decl req decl.routes = held decl ∨ ∃ m, classify parse decl req decl.routes = .refused m) →
    ∀ key, classify parse decl req (before ++ row :: after) ≠ .listed key

end

section

variable {parse : Str → Option Json} {decl : BridgeDecl} {req : Request}

theorem classify_eq (routes : List RouteEntry) :
    classify parse decl req routes =
      ((routes.findSome? (ruling parse decl req)).getD
        (if reads (upperAscii req.method) then .unlistedRead else held decl)) := by
  unfold classify classifyRoute
  dsimp only
  split
  · rename_i c hfound
    have hruled : routes.findSome? (ruling parse decl req) = some c := hfound
    rw [hruled]
    rfl
  · rename_i hnone
    have hruled : routes.findSome? (ruling parse decl req) = none := hnone
    rw [hruled]
    rfl

/-- The first row that says something decides, whatever follows it. -/
theorem classify_at {before : List RouteEntry} {row : RouteEntry} {c : RouteClass}
    (hbefore : ∀ r ∈ before, ruling parse decl req r = none) (hrow : ruling parse decl req row = some c)
    (after : List RouteEntry) : classify parse decl req (before ++ row :: after) = c := by
  rw [classify_eq, List.findSome?_append, List.findSome?_eq_none_iff.2 hbefore, List.findSome?_cons, hrow]
  rfl

theorem asked_unique {body : Option Str} {a b : Option Json} (ha : Asked parse body a) (hb : Asked parse body b) :
    a = b := by
  cases ha with
  | absent =>
    cases hb with
    | absent => rfl
  | object t fields h =>
    cases hb with
    | object _ fields' h' =>
      rw [h, Option.some.injEq] at h'
      rw [h']

variable (parse) in
/-- A body is unreadable, or the predicate is asked of it. -/
theorem parsedBody_cases (body : Option Str) :
    (parsedBody parse body = .unreadable ∧ ∀ arg, ¬ Asked parse body arg) ∨ ∃ arg, Asked parse body arg := by
  cases body with
  | none => exact .inr ⟨none, .absent⟩
  | some b =>
    have hunread : (∀ fields, parse b ≠ some (.obj fields)) → ∀ arg, ¬ Asked parse (some b) arg := by
      intro hnot arg h
      cases h with
      | object _ fields h => exact hnot fields h
    cases hb : parse b with
    | none => exact .inl ⟨by simp [parsedBody, hb], hunread fun fields h => by rw [hb] at h; cases h⟩
    | some v =>
      cases v with
      | obj fields => exact .inr ⟨some (.obj fields), .object b fields hb⟩
      | _ => exact .inl ⟨by simp [parsedBody, hb], hunread fun fields h => by rw [hb] at h; cases h⟩

/-- What a matching row makes of its predicate's answer, or of its silence. -/
def ruled (rule : RouteRule) (held : RouteClass) : Option Bool → Option RouteClass
  | none => some (rule.unsure held)
  | some true => some rule.decides
  | some false => none

theorem ruling_asked {row : RouteEntry} {check : Option Json → Option Str → Option Bool} {arg : Option Json}
    (hmatch : Matches req row) (hcheck : row.body = some check) (hjson : isJsonContentType req.contentType = true)
    (harg : Asked parse req.body arg) :
    ruling parse decl req row = ruled row.rule (held decl) (check arg req.body) := by
  have hmeets : row.meets (upperAscii req.method) req.path req.hasQuery = true := hmatch
  unfold ruling RouteEntry.rules
  rw [hmeets, hcheck, hjson]
  generalize req.body = body at harg
  cases harg with
  | absent =>
    simp only [parsedBody, Bool.not_true, Bool.false_eq_true, if_false]
    cases check none none with
    | none => rfl
    | some answer => cases answer <;> rfl
  | object t fields h =>
    simp only [parsedBody, h, Bool.not_true, Bool.false_eq_true, if_false]
    cases check (some (.obj fields)) (some t) with
    | none => rfl
    | some answer => cases answer <;> rfl

/-- What a row says, by what it could make of the request. -/
inductive Says (parse : Str → Option Json) (decl : BridgeDecl) (req : Request) (row : RouteEntry) :
    Option RouteClass → Prop
  | elsewhere (h : ¬ Matches req row) : Says parse decl req row none
  | unchecked (h : Matches req row) (hbody : row.body = none) : Says parse decl req row (some row.rule.decides)
  | unsure (h : Matches req row) (hun : Unjudged parse req row) :
      Says parse decl req row (some (row.rule.unsure (held decl)))
  | yes (h : Matches req row) (hyes : Answered req (Asked parse) row true) :
      Says parse decl req row (some row.rule.decides)
  | no (h : Matches req row) (hno : Answered req (Asked parse) row false) : Says parse decl req row none

variable (parse decl req) in
theorem says_ruling (row : RouteEntry) : Says parse decl req row (ruling parse decl req row) := by
  by_cases hmatch : Matches req row
  · have hmeets : row.meets (upperAscii req.method) req.path req.hasQuery = true := hmatch
    cases hcheck : row.body with
    | none =>
      have hruling : ruling parse decl req row = some row.rule.decides := by
        unfold ruling RouteEntry.rules
        rw [hmeets, hcheck]
        rfl
      rw [hruling]
      exact .unchecked hmatch hcheck
    | some check =>
      cases hjson : isJsonContentType req.contentType with
      | false =>
        have hruling : ruling parse decl req row = some (row.rule.unsure (held decl)) := by
          unfold ruling RouteEntry.rules
          rw [hmeets, hcheck, hjson]
          rfl
        rw [hruling]
        exact .unsure hmatch ⟨check, hcheck, .inl hjson⟩
      | true =>
        rcases parsedBody_cases parse req.body with ⟨hun, hnone⟩ | ⟨arg, harg⟩
        · have hruling : ruling parse decl req row = some (row.rule.unsure (held decl)) := by
            unfold ruling RouteEntry.rules
            rw [hmeets, hcheck, hjson, hun]
            rfl
          rw [hruling]
          exact .unsure hmatch ⟨check, hcheck, .inr (.inl hnone)⟩
        · rw [ruling_asked hmatch hcheck hjson harg]
          cases hanswer : check arg req.body with
          | none => exact .unsure hmatch ⟨check, hcheck, .inr (.inr ⟨arg, harg, hanswer⟩)⟩
          | some answer =>
            cases answer with
            | true => exact .yes hmatch ⟨hjson, check, arg, hcheck, harg, hanswer⟩
            | false => exact .no hmatch ⟨hjson, check, arg, hcheck, harg, hanswer⟩
  · have hmeets : row.meets (upperAscii req.method) req.path req.hasQuery = false := by
      rw [← Bool.not_eq_true]
      exact hmatch
    have hruling : ruling parse decl req row = none := by
      unfold ruling RouteEntry.rules
      rw [hmeets]
      rfl
    rw [hruling]
    exact .elsewhere hmatch

/-- A check that could not be judged did not answer. -/
theorem unjudged_silent {row : RouteEntry} {answer : Bool} (h : Unjudged parse req row) :
    ¬ Answered req (Asked parse) row answer := by
  rintro ⟨hjson, check, arg, hcheck, harg, hanswer⟩
  obtain ⟨check', hcheck', hun⟩ := h
  rw [hcheck, Option.some.injEq] at hcheck'
  subst hcheck'
  rcases hun with hnot | hnone | ⟨arg', harg', hthrew⟩
  · rw [hjson] at hnot
    cases hnot
  · exact hnone arg harg
  · rw [asked_unique harg harg', hthrew] at hanswer
    cases hanswer

variable (decl) in
theorem ruling_unjudged {row : RouteEntry} (hmatch : Matches req row) (h : Unjudged parse req row) :
    ruling parse decl req row = some (row.rule.unsure (held decl)) := by
  have hsays := says_ruling parse decl req row
  revert hsays
  generalize ruling parse decl req row = c
  intro hsays
  cases hsays with
  | elsewhere hnot => exact absurd hmatch hnot
  | unchecked _ hbody =>
    obtain ⟨check, hcheck, -⟩ := h
    rw [hbody] at hcheck
    cases hcheck
  | unsure => rfl
  | yes _ hyes => exact absurd hyes (unjudged_silent h)
  | no _ hno => exact absurd hno (unjudged_silent h)

variable (parse decl req) in
/-- A refuse row refuses, or says nothing: where it does not match, or its predicate said no. -/
theorem ruling_refuse {row : RouteEntry} {message : Str} {unsure : Option Str} (hrule : row.rule = .refuse message unsure) :
    (∃ m, ruling parse decl req row = some (.refused m)) ∨
      ruling parse decl req row = none ∧ (Matches req row → Answered req (Asked parse) row false) := by
  have hsays := says_ruling parse decl req row
  revert hsays
  generalize ruling parse decl req row = c
  intro hsays
  cases hsays with
  | elsewhere hnot => exact .inr ⟨rfl, fun h => absurd h hnot⟩
  | unchecked => exact .inl ⟨message, by rw [hrule]; rfl⟩
  | unsure => exact .inl ⟨unsure.getD unjudgedBody, by rw [hrule]; rfl⟩
  | yes => exact .inl ⟨message, by rw [hrule]; rfl⟩
  | no _ hno => exact .inr ⟨rfl, fun _ => hno⟩

/-- A row that lists is a key row, with no check or one that said yes. -/
theorem ruling_listed {row : RouteEntry} {key : String} (h : ruling parse decl req row = some (.listed key)) :
    row.rule = .key key ∧ Matches req row ∧ (row.body = none ∨ Answered req (Asked parse) row true) := by
  have hsays := says_ruling parse decl req row
  have hdecides : ∀ rule : RouteRule, some rule.decides = some (RouteClass.listed key) → rule = .key key := by
    intro rule hrule
    cases rule with
    | key k =>
      rw [RouteRule.decides, Option.some.injEq, RouteClass.listed.injEq] at hrule
      rw [hrule]
    | refuse => cases hrule
  rw [h] at hsays
  generalize hc : some (RouteClass.listed key) = c at hsays
  cases hsays with
  | elsewhere => cases hc
  | unchecked hmatch hbody => exact ⟨hdecides row.rule hc.symm, hmatch, .inl hbody⟩
  | unsure =>
    cases hrule : row.rule with
    | key k =>
      rw [hrule] at hc
      cases hc
    | refuse message unsure =>
      rw [hrule] at hc
      cases hc
  | yes hmatch hyes => exact ⟨hdecides row.rule hc.symm, hmatch, .inr hyes⟩
  | no => cases hc

variable (parse decl req) in
/-- A refuse row put into a table refuses, or changes nothing. -/
theorem classify_added (before after : List RouteEntry) {row : RouteEntry} {message : Str} {unsure : Option Str}
    (hrule : row.rule = .refuse message unsure) :
    (∃ m, classify parse decl req (before ++ row :: after) = .refused m) ∨
      classify parse decl req (before ++ row :: after) = classify parse decl req (before ++ after) := by
  rw [classify_eq, classify_eq, List.findSome?_append, List.findSome?_append, List.findSome?_cons]
  rcases ruling_refuse parse decl req hrule with ⟨m, hm⟩ | ⟨hnone, -⟩
  · rw [hm]
    cases before.findSome? (ruling parse decl req) with
    | none => exact .inl ⟨m, rfl⟩
    | some c => exact .inr rfl
  · rw [hnone]
    exact .inr rfl

end

/-- The table fails closed for every request; a listing may rest on an object sent as JSON, or on the absence of a body. -/
theorem fails_closed (parse : Str → Option Json) (decl : BridgeDecl) (req : Request) :
    FailsClosed parse decl req (Asked parse) := by
  refine ⟨?_, ?_, ?_, ?_⟩
  · intro before row after message unsure hroutes hbefore hrule hmatch
    rcases ruling_refuse parse decl req hrule with ⟨m, hm⟩ | ⟨-, hno⟩
    · rw [hroutes, classify_at hbefore hm]
      exact .inl ⟨m, rfl⟩
    · exact .inr (hno hmatch)
  · intro before row after key _ hbefore hrule hmatch hun after'
    have hrow := ruling_unjudged decl hmatch hun
    rw [hrule] at hrow
    exact classify_at hbefore hrow after'
  · intro key hlisted
    rw [classify_eq] at hlisted
    cases hfirst : decl.routes.findSome? (ruling parse decl req) with
    | none =>
      rw [hfirst, Option.getD_none] at hlisted
      split at hlisted
      · cases hlisted
      · cases hlisted
    | some c =>
      rw [hfirst, Option.getD_some] at hlisted
      obtain ⟨row, hrow, hsays⟩ := List.exists_of_findSome?_eq_some hfirst
      rw [hlisted] at hsays
      exact ⟨row, hrow, ruling_listed hsays⟩
  · intro before row after message unsure hroutes hrule hclosed key hlisted
    rcases classify_added parse decl req before after hrule with ⟨m, hm⟩ | hsame
    · rw [hm] at hlisted
      cases hlisted
    · rw [hsame, ← hroutes] at hlisted
      rcases hclosed with hheld | ⟨m, hm⟩
      · rw [hheld] at hlisted
        cases hlisted
      · rw [hm] at hlisted
        cases hlisted

/-- A table of one key row, whose predicate takes any body. -/
def openTable : BridgeDecl where
  routes := [⟨[js "POST"], fun _ => true, false, some fun _ _ => some true, .key "comment"⟩]
  unlistedWriteKey := "unlisted"
  normalize := none
  describe := none
  unlisted_ne_empty := by decide
  unlisted_ne_bridgeTool := by decide

/-- A write with no body is listed by what the predicate says of there being none. -/
theorem listed_without_body :
    ¬ FailsClosed (fun _ => none) openTable ⟨js "POST", js "/x", none, some (js "application/json"), false⟩
      (fun body arg => Asked (fun _ => none) body arg ∧ arg ≠ none) := by
  intro h
  obtain ⟨row, hrow, -, -, hbody | ⟨-, check, arg, -, ⟨harg, hne⟩, -⟩⟩ := h.lists "comment" (by decide)
  · rw [List.mem_singleton.1 hrow] at hbody
    cases hbody
  · cases harg
    exact hne rfl

end Antiproton.Routes
