import CordactylBot.AcknowledgePayload.Payload

/-!
Which application the acknowledgements carry.

The application should always be the one parsed from the last fetch or edit that
completed with `h_success` and a 2xx status. The edit tests for exactly that. The
fetch asks `is_error()` instead, which looks at status and body only: a request that
never got an answer completes with status 0, is no error to it, and puts a
default-constructed application in place of the known one.

* `application_current` — in every run whose fetches complete with `is_error()` exactly
  when they did not succeed, the application is the last successful one, and so is
  the one in every pulled payload.
* `application_replaced` — a run where a timeout replaces it.
-/

namespace AcknowledgePayload

open Json EventLog

/-- `h_success` and a 2xx status. -/
def succeeded (rv : HttpRequestCompletion) : Bool :=
  rv.error = .success && (200 ≤ rv.status && rv.status < 300)

/-- The application a successful completion of a fetch or an edit was parsed to. -/
def successful (P : Platform) : Event → Option Application
  | .fetched rv | .edited rv =>
      if succeeded rv then
        match parsedApplication P rv with
        | .ok application => some application
        | .error _ => none
      else none
  | _ => none

/-- The application of the last successful completion, the default one before the first. -/
def lastSuccessful (P : Platform) (log : List Event) : Application :=
  (latest (successful P) log).getD {}

/-- Every pull carried the application that was the last successful one then. -/
def PullsCurrent (P : Platform) : List Event → Prop
  | [] => True
  | .pulled result :: older =>
      result.find? "application" = some (applicationValue (lastSuccessful P older)) ∧
        PullsCurrent P older
  | _ :: older => PullsCurrent P older

/-- The known application is the last successful one, and every pull carried it. -/
structure ApplicationCurrent (P : Platform) (o : Object) : Prop where
  known : o.self.currentApplication = lastSuccessful P o.log
  pulled : PullsCurrent P o.log

/-- The condition on a step: a fetch completes with `is_error()` false exactly when it
succeeded, unless D++ could not fill an application from it. -/
def FetchAgrees (P : Platform) : Label → Prop
  | .fetched rv =>
      (parsedApplication P rv).isOk = true →
        (P.isError (P.httpInfo rv) = false ↔ succeeded rv = true)
  | _ => True

instance (P : Platform) : ∀ l, Decidable (FetchAgrees P l)
  | .fetched rv => inferInstanceAs (Decidable ((parsedApplication P rv).isOk = true →
      (P.isError (P.httpInfo rv) = false ↔ succeeded rv = true)))
  | .merge _ => inferInstanceAs (Decidable True)
  | .pull => inferInstanceAs (Decidable True)
  | .fetch => inferInstanceAs (Decidable True)
  | .edit => inferInstanceAs (Decidable True)
  | .edited _ => inferInstanceAs (Decidable True)

variable {P : Platform}

theorem lastSuccessful_cons_of_none {e : Event} (h : successful P e = none) (log : List Event) :
    lastSuccessful P (e :: log) = lastSuccessful P log := by
  rw [lastSuccessful, latest_cons_of_none h, lastSuccessful]

theorem lastSuccessful_cons_of_some {e : Event} {app : Application}
    (h : successful P e = some app) (log : List Event) : lastSuccessful P (e :: log) = app := by
  rw [lastSuccessful, latest_cons_of_some h]
  rfl

/-- The completion of a fetch that agrees replaces the application exactly when it succeeded. -/
theorem fetched_known {a : AcknowledgePayload} {rv : HttpRequestCompletion}
    (agrees : FetchAgrees P (.fetched rv)) :
    (∃ x, a.fetched P rv = .error x ∧ successful P (.fetched rv) = none) ∨
    ∃ a', a.fetched P rv = .ok a' ∧
      a'.currentApplication = (successful P (.fetched rv)).getD a.currentApplication := by
  unfold fetched successful
  cases hparsed : parsedApplication P rv with
  | error x => exact .inl ⟨x, rfl, by simp [hparsed]⟩
  | ok app =>
    have agrees : P.isError (P.httpInfo rv) = false ↔ succeeded rv = true := by
      apply agrees
      rw [hparsed]
      rfl
    right
    simp only [bind, Except.bind]
    cases herror : P.isError (P.httpInfo rv) with
    | true =>
      have hno : succeeded rv = false := by
        rw [← Bool.not_eq_true, ← agrees, herror]
        exact Bool.noConfusion
      exact ⟨a, rfl, by rw [hno]; rfl⟩
    | false => exact ⟨_, rfl, by simp [agrees.mp herror, hparsed]⟩

/-- The completion of an edit replaces the application exactly when it succeeded. -/
theorem edited_known {a : AcknowledgePayload} {rv : HttpRequestCompletion} :
    (∃ x, a.edited P rv = .error x ∧ successful P (.edited rv) = none) ∨
    ∃ a', a.edited P rv = .ok a' ∧
      a'.currentApplication = (successful P (.edited rv)).getD a.currentApplication := by
  unfold edited successful
  simp only [Platform.httpInfo_error, Platform.httpInfo_status]
  by_cases hok : succeeded rv = true
  · have htest : ¬ (rv.error ≠ .success ∨ rv.status < 200 ∨ rv.status ≥ 300) := by
      simp only [succeeded, Bool.and_eq_true, decide_eq_true_eq] at hok
      rintro (h | h | h)
      · exact h hok.1
      · exact absurd hok.2.1 (UInt16.not_le.mpr h)
      · exact absurd hok.2.2 (UInt16.not_lt.mpr h)
    rw [if_neg htest, hok]
    cases hparsed : parsedApplication P rv with
    | error x => exact .inl ⟨x, rfl, rfl⟩
    | ok app => exact .inr ⟨_, rfl, rfl⟩
  · have htest : rv.error ≠ .success ∨ rv.status < 200 ∨ rv.status ≥ 300 := by
      by_contra hnone
      simp only [not_or, not_not, UInt16.not_lt, ge_iff_le, UInt16.not_le] at hnone
      simp [succeeded, hnone.1, hnone.2.1, hnone.2.2] at hok
    rw [if_pos htest]
    exact .inr ⟨a, rfl, by simp [hok]⟩

/-- A completion that replaces the application exactly when it succeeded keeps it current. -/
theorem settle_current {o : Object} {result : Except Exception AcknowledgePayload} {e : Event}
    (h : ApplicationCurrent P o) (he : ∃ rv, e = .fetched rv ∨ e = .edited rv)
    (hresult : (∃ x, result = .error x ∧ successful P e = none) ∨
      ∃ a', result = .ok a' ∧
        a'.currentApplication = (successful P e).getD o.self.currentApplication) :
    ApplicationCurrent P (o.settle result e) := by
  have hpulls : PullsCurrent P (e :: o.log) := by
    obtain ⟨rv, rfl | rfl⟩ := he
    · exact h.pulled
    · exact h.pulled
  rcases hresult with ⟨x, rfl, hnone⟩ | ⟨a', rfl, hknown⟩
  · constructor
    · have hcaught : lastSuccessful P (.caught x :: e :: o.log) = lastSuccessful P o.log := by
        rw [lastSuccessful_cons_of_none rfl, lastSuccessful_cons_of_none hnone]
      exact h.known.trans hcaught.symm
    · exact hpulls
  · constructor
    · change a'.currentApplication = lastSuccessful P (e :: o.log)
      cases hsuccess : successful P e with
      | none => rw [hknown, hsuccess, lastSuccessful_cons_of_none hsuccess, ← h.known]; rfl
      | some app => rw [hknown, hsuccess, lastSuccessful_cons_of_some hsuccess]; rfl
    · exact hpulls

theorem applicationCurrent_step {o o' : Object} {l : Label} (tracked : PayloadTracked o)
    (h : ApplicationCurrent P o) (hstep : step P o l = some o') (agrees : FetchAgrees P l) :
    ApplicationCurrent P o' := by
  have mergeable : o.self.payload.Mergeable := tracked.payload ▸ mergeAll_mergeable _
  cases l with
  | merge source =>
    simp only [step, merge_eq mergeable, Option.some.injEq] at hstep
    subst hstep
    constructor
    · rw [lastSuccessful_cons_of_none rfl]
      exact h.known
    · exact h.pulled
  | pull =>
    simp only [step, pullPayload_eq mergeable, Option.some.injEq] at hstep
    subst hstep
    constructor
    · rw [lastSuccessful_cons_of_none rfl]
      exact h.known
    · refine ⟨?_, h.pulled⟩
      rw [find?_put mergeable, if_pos rfl, h.known]
  | fetch =>
    simp only [step, Option.some.injEq] at hstep
    subst hstep
    exact ⟨h.known, h.pulled⟩
  | fetched rv =>
    simp only [step, Option.ite_none_left_eq_some, Option.some.injEq] at hstep
    obtain ⟨-, rfl⟩ := hstep
    have same : ApplicationCurrent P { o with fetching := o.fetching - 1 } := ⟨h.known, h.pulled⟩
    exact settle_current same ⟨rv, .inl rfl⟩ (fetched_known agrees)
  | edit =>
    obtain ⟨body, hbody⟩ := editBody_ok o.self.currentApplication
    simp only [step, hbody, Option.some.injEq] at hstep
    subst hstep
    split
    · exact h
    · exact ⟨h.known, h.pulled⟩
  | edited rv =>
    simp only [step, Option.ite_none_left_eq_some, Option.some.injEq] at hstep
    obtain ⟨-, rfl⟩ := hstep
    have same : ApplicationCurrent P { o with editing := o.editing - 1 } := ⟨h.known, h.pulled⟩
    exact settle_current same ⟨rv, .inr rfl⟩ edited_known

theorem PullsCurrent.at {result : Json} {older : List Event} :
    ∀ newer : List Event, PullsCurrent P (newer ++ .pulled result :: older) →
      result.find? "application" = some (applicationValue (lastSuccessful P older))
  | [], h => h.1
  | e :: newer, h => by
      cases e with
      | pulled r => exact PullsCurrent.at newer h.2
      | _ => exact PullsCurrent.at newer h

/-- **The known application is the last successful one**, in every run whose fetches
complete with `is_error()` exactly when they did not succeed; and every payload pulled
carries the application that was the last successful one by then. -/
theorem application_current (P : Platform) {labels : List Label} {o : Object}
    (agree : (system P).Along (fun _ l _ => FetchAgrees P l) (system P).start labels)
    (hrun : (system P).run (system P).start labels = some o) :
    o.self.currentApplication = lastSuccessful P o.log ∧
    ∀ newer result older, o.log = newer ++ .pulled result :: older →
      result.find? "application" = some (applicationValue (lastSuccessful P older)) := by
  have start : PayloadTracked (system P).start ∧ ApplicationCurrent P (system P).start :=
    ⟨payloadTracked (P := P) ⟨[], rfl⟩, rfl, trivial⟩
  obtain ⟨-, h⟩ := agree.invariant (P := fun o => PayloadTracked o ∧ ApplicationCurrent P o)
    (fun o l o' h hstep agrees =>
      ⟨payloadTracked_step o l o' h.1 hstep, applicationCurrent_step h.1 h.2 hstep agrees⟩)
    start hrun
  constructor
  · exact h.known
  · intro newer result older hlog
    have hpulled := h.pulled
    rw [hlog] at hpulled
    exact PullsCurrent.at newer hpulled

/-- The application of bot 6, as Discord answers with it. -/
def answered : HttpRequestCompletion where
  status := 200
  body :=
    "\x7b\x22bot\x22:\x7b\x22id\x22:\x226\x22,\x22username\x22:\x22Bot\x22\x7d," ++
      "\x22id\x22:\x225\x22\x7d"

def knownPlatform : Platform :=
  let body := Json.object
    [("bot", .object [("id", .string "6"), ("username", .string "Bot")]), ("id", .string "5")]
  .ofTable [(answered.body, body)] [(body, { id := 5, bot := { id := 6, username := "Bot" } })]

/-- A fetch, and a payload pulled after it. -/
def fetchedAndPulled : List Label :=
  [.fetch, .fetched answered, .pull]

def pulledKnown : Object :=
  ((system knownPlatform).run {} fetchedAndPulled).get (by decide +kernel)

theorem application_current_pulledKnown :
    pulledKnown.self.currentApplication = lastSuccessful knownPlatform pulledKnown.log :=
  (@application_current knownPlatform fetchedAndPulled pulledKnown (by decide +kernel)
    (Option.some_get _).symm).1

/-- The application is fetched, and the next fetch times out. -/
def timedOut : Object :=
  ((system knownPlatform).run {}
    [.fetch, .fetched answered, .fetch, .fetched { status := 0, error := .connection }]).get
      (by decide +kernel)

/-- **A timeout replaces the known application** by a default-constructed one. -/
theorem application_replaced : ∃ o, (system knownPlatform).Reachable o ∧
    o.self.currentApplication ≠ lastSuccessful knownPlatform o.log ∧
    o.self.currentApplication = {} :=
  ⟨timedOut, ⟨_, (Option.some_get _).symm⟩, by decide +kernel, by decide +kernel⟩

end AcknowledgePayload
