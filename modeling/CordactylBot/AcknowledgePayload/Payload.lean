import CordactylBot.AcknowledgePayload.System

/-!
Merges and pulls.

Between two calls the payload is what the sources merged since the last pull make of
null, one after the other. So a pull returns exactly these, with the application put
over them, and every source ends up in one pull (`merge_pull`).

A failed acknowledgement has pulled like any other, and nothing puts back what it
pulled: when its completion has been handled, the payload holds the merges made
meanwhile and nothing else (`payload_after_completion`, `not_failedKeepsPayload`).
-/

namespace AcknowledgePayload

open Json EventLog

/-! ### The methods do not throw -/

def putIf (condition : Bool) (j : Json) (key : String) (value : Json) : Json :=
  if condition then j.put key value else j

theorem mergeable_putIf {j : Json} (h : j.Mergeable) (condition : Bool) (key : String)
    (value : Json) : (putIf condition j key value).Mergeable := by
  unfold putIf
  split
  · exact mergeable_put j key value
  · exact h

theorem assignIf_eq {j : Json} (h : j.Mergeable) (condition : Bool) (key : String)
    (value : Json) : assignIf condition j key value = .ok (putIf condition j key value) := by
  unfold assignIf putIf
  split
  · exact assign_eq_put h key value
  · rfl

/-- The `application` member, as a value. -/
def applicationValue (app : Application) : Json :=
  let bot := (Json.null.put "id" (snowflakeJson app.bot.id)).put "username" (.string app.bot.username)
  let application := (Json.null.put "bot" bot).put "id" (snowflakeJson app.id)
  let application := putIf (app.name ≠ "") application "name" (.string app.name)
  let application := putIf (app.icon ≠ "") application "icon" (.string app.icon)
  let application := putIf (app.flags ≠ 0) application "flags" (.numberUnsigned app.flags.toUInt64)
  let application := putIf (!app.redirectUris.isEmpty) application "redirect_uris"
    (.array (app.redirectUris.map .string))
  let application := putIf (app.customInstallUrl ≠ "") application "custom_install_url"
    (.string app.customInstallUrl)
  application.put "bot_public" (.boolean app.botPublic)

theorem applicationJson_eq (app : Application) :
    applicationJson app = .ok (applicationValue app) := by
  have null : Json.null.Mergeable := trivial
  simp only [applicationJson, applicationValue, bind, Except.bind, assign_eq_put null,
    assign_eq_put (mergeable_put _ _ _), assignIf_eq (mergeable_put _ _ _),
    assignIf_eq (mergeable_putIf (mergeable_put _ _ _) _ _ _),
    assignIf_eq (mergeable_putIf (mergeable_putIf (mergeable_put _ _ _) _ _ _) _ _ _),
    assignIf_eq (mergeable_putIf (mergeable_putIf (mergeable_putIf (mergeable_put _ _ _) _ _ _)
      _ _ _) _ _ _),
    assignIf_eq (mergeable_putIf (mergeable_putIf (mergeable_putIf (mergeable_putIf
      (mergeable_put _ _ _) _ _ _) _ _ _) _ _ _) _ _ _),
    assign_eq_put (mergeable_putIf (mergeable_putIf (mergeable_putIf (mergeable_putIf
      (mergeable_putIf (mergeable_put _ _ _) _ _ _) _ _ _) _ _ _) _ _ _) _ _ _)]

theorem merge_eq {a : AcknowledgePayload} (h : a.payload.Mergeable) (source : Json) :
    a.merge source = .ok { a with payload := merged a.payload source } := by
  simp only [merge, deepMerge_ok source _ h, bind, Except.bind]
  rfl

/-- What a pull returns: the payload with the application over it. -/
theorem pullPayload_eq {a : AcknowledgePayload} (h : a.payload.Mergeable) :
    a.pullPayload = .ok (a.payload.put "application" (applicationValue a.currentApplication),
      { a with payload := .null }) := by
  simp only [pullPayload, applicationJson_eq, assign_eq_put h, bind, Except.bind]
  rfl

theorem editBody_ok (app : Application) : ∃ body, editBody app = .ok body := by
  have null : Json.null.Mergeable := trivial
  unfold editBody
  simp only [assignIf_eq null, bind, Except.bind]
  split
  · rw [assign_eq_put (mergeable_putIf null _ _ _)]
    dsimp only
    rw [assign_eq_put (mergeable_put _ _ _)]
    exact ⟨_, rfl⟩
  · exact ⟨_, rfl⟩

/-! ### What the log says about the payload -/

def isPull : Event → Bool
  | .pulled _ => true
  | _ => false

def mergedSource : Event → Option Json
  | .merged source => some source
  | _ => none

/-- The sources merged since the last pull, in merge order. -/
def pending (log : List Event) : List Json :=
  ((since isPull log).filterMap mergedSource).reverse

/-- All sources merged, in merge order. -/
def merges (log : List Event) : List Json :=
  (log.filterMap mergedSource).reverse

/-- The pulls in their order, each with the sources merged since the one before and
what it returned. -/
def pulls : List Event → List (List Json × Json)
  | [] => []
  | .pulled result :: older => pulls older ++ [(pending older, result)]
  | _ :: older => pulls older

/-- Every merged source belongs to exactly one pull or is still pending. -/
theorem merges_eq (log : List Event) :
    merges log = (pulls log).flatMap Prod.fst ++ pending log := by
  induction log with
  | nil => rfl
  | cons e older ih =>
    cases e with
    | merged source =>
      have hp : pending (.merged source :: older) = pending older ++ [source] := by
        rw [pending, since_cons_of_neg rfl]
        simp [pending, mergedSource]
      have hm : merges (.merged source :: older) = merges older ++ [source] := by
        simp [merges, mergedSource]
      rw [hp, hm, ih, List.append_assoc]
      rfl
    | pulled result =>
      have hp : pending (.pulled result :: older) = [] := by
        rw [pending, since_cons_of_pos rfl]
        rfl
      have hm : merges (.pulled result :: older) = merges older := rfl
      rw [hp, hm, ih, pulls]
      simp
    | _ => exact ih

/-- The payload is the merge of what is pending, every pull returned such a merge, and
no merge or pull threw. -/
structure PayloadTracked (o : Object) : Prop where
  clean : ∀ e, .threw e ∉ o.log
  ordered : ∀ source, .merged source ∈ o.log → source.Ordered
  payload : o.self.payload = mergeAll (pending o.log)
  pulled : ∀ batch result, (batch, result) ∈ pulls o.log →
    ∃ app, result = (mergeAll batch).put "application" (applicationValue app)

variable {P : Platform}

/-- Methods that only log something else and leave the payload. -/
theorem PayloadTracked.other {o o' : Object} {new : List Event} (h : PayloadTracked o)
    (hself : o'.self.payload = o.self.payload) (hlog : o'.log = new ++ o.log)
    (kinds : ∀ e ∈ new, (∃ rv, e = .fetched rv ∨ e = .edited rv) ∨ ∃ x, e = .caught x) :
    PayloadTracked o' := by
  have hpending : ∀ new : List Event,
      (∀ e ∈ new, (∃ rv, e = .fetched rv ∨ e = .edited rv) ∨ ∃ x, e = .caught x) →
      pending (new ++ o.log) = pending o.log ∧ pulls (new ++ o.log) = pulls o.log := by
    intro new
    induction new with
    | nil => exact fun _ => ⟨rfl, rfl⟩
    | cons e new ih =>
      intro kinds
      rcases kinds e List.mem_cons_self with ⟨rv, rfl | rfl⟩ | ⟨x, rfl⟩
      all_goals exact ih fun e he => kinds e (List.mem_cons_of_mem _ he)
  obtain ⟨hp, hpulls⟩ := hpending new kinds
  constructor
  · intro e he
    rcases List.mem_append.mp (hlog ▸ he) with he | he
    · rcases kinds _ he with ⟨rv, he | he⟩ | ⟨x, he⟩ <;> cases he
    · exact h.clean e he
  · intro source he
    rcases List.mem_append.mp (hlog ▸ he) with he | he
    · rcases kinds _ he with ⟨rv, he | he⟩ | ⟨x, he⟩ <;> cases he
    · exact h.ordered source he
  · rw [hself, hlog, hp, h.payload]
  · intro batch result hmem
    rw [hlog, hpulls] at hmem
    exact h.pulled batch result hmem

theorem settle_tracked {o : Object} {result : Except Exception AcknowledgePayload} {e : Event}
    (h : PayloadTracked o) (hresult : ∀ self, result = .ok self → self.payload = o.self.payload)
    (he : ∃ rv, e = .fetched rv ∨ e = .edited rv) : PayloadTracked (o.settle result e) := by
  cases result with
  | ok self =>
    have hlog : (o.settle (.ok self) e).log = [e] ++ o.log := rfl
    apply h.other (hresult self rfl) hlog
    intro e' he'
    rw [List.mem_singleton.mp he']
    exact .inl he
  | error x =>
    have hself : (o.settle (.error x) e).self.payload = o.self.payload := rfl
    have hlog : (o.settle (.error x) e).log = [.caught x, e] ++ o.log := rfl
    apply h.other hself hlog
    intro e' he'
    rcases List.mem_cons.mp he' with rfl | he'
    · exact .inr ⟨x, rfl⟩
    · rw [List.mem_singleton.mp he']
      exact .inl he

theorem fetched_payload {a a' : AcknowledgePayload} {rv : HttpRequestCompletion}
    (h : a.fetched P rv = .ok a') : a'.payload = a.payload := by
  unfold fetched at h
  cases hparsed : parsedApplication P rv with
  | error e =>
    rw [hparsed] at h
    cases h
  | ok app =>
    rw [hparsed] at h
    simp only [bind, Except.bind] at h
    split at h
    · cases h
      rfl
    · cases h
      rfl

theorem edited_payload {a a' : AcknowledgePayload} {rv : HttpRequestCompletion}
    (h : a.edited P rv = .ok a') : a'.payload = a.payload := by
  unfold edited at h
  dsimp only at h
  split at h
  · cases h
    rfl
  · cases hparsed : parsedApplication P rv with
    | error e =>
      rw [hparsed] at h
      cases h
    | ok app =>
      rw [hparsed] at h
      cases h
      rfl

/-- A merge adds its source to what is pending. -/
theorem PayloadTracked.merge {o : Object} (h : PayloadTracked o) (source : OrderedJson) :
    PayloadTracked { o with
      self := { o.self with payload := merged o.self.payload source.value }
      log := .merged source.value :: o.log } := by
  have hpending : pending (.merged source.value :: o.log) = pending o.log ++ [source.value] := by
    rw [pending, since_cons_of_neg rfl]
    simp [pending, mergedSource]
  constructor
  · intro e he
    rcases List.mem_cons.mp he with he | he
    · cases he
    · exact h.clean e he
  · intro s hs
    rcases List.mem_cons.mp hs with hs | hs
    · cases hs
      exact source.ordered
    · exact h.ordered s hs
  · rw [hpending, mergeAll_concat, ← h.payload]
  · exact h.pulled

/-- A pull takes all that is pending. -/
theorem PayloadTracked.pull {o : Object} (h : PayloadTracked o) :
    PayloadTracked { o with
      self := { o.self with payload := .null }
      log := .pulled (o.self.payload.put "application"
        (applicationValue o.self.currentApplication)) :: o.log } := by
  constructor
  · intro e he
    rcases List.mem_cons.mp he with he | he
    · cases he
    · exact h.clean e he
  · intro s hs
    rcases List.mem_cons.mp hs with hs | hs
    · cases hs
    · exact h.ordered s hs
  · rw [pending, since_cons_of_pos rfl]
    rfl
  · intro batch result hmem
    rcases List.mem_append.mp hmem with hmem | hmem
    · exact h.pulled batch result hmem
    · cases List.mem_singleton.mp hmem
      exact ⟨o.self.currentApplication, by rw [h.payload]⟩

theorem payloadTracked_step : (system P).Preserved PayloadTracked := by
  intro o l o' h hstep
  have mergeable : o.self.payload.Mergeable := h.payload ▸ mergeAll_mergeable _
  cases l with
  | merge source =>
    simp only [system, step, merge_eq mergeable, Option.some.injEq] at hstep
    subst hstep
    exact h.merge source
  | pull =>
    simp only [system, step, pullPayload_eq mergeable, Option.some.injEq] at hstep
    subst hstep
    exact h.pull
  | fetch =>
    simp only [system, step, Option.some.injEq] at hstep
    subst hstep
    exact ⟨h.clean, h.ordered, h.payload, h.pulled⟩
  | fetched rv =>
    simp only [system, step, Option.ite_none_left_eq_some, Option.some.injEq] at hstep
    obtain ⟨-, rfl⟩ := hstep
    have same : PayloadTracked { o with fetching := o.fetching - 1 } :=
      ⟨h.clean, h.ordered, h.payload, h.pulled⟩
    apply settle_tracked same
    · intro self hself
      exact fetched_payload hself
    · exact ⟨rv, .inl rfl⟩
  | edit =>
    obtain ⟨body, hbody⟩ := editBody_ok o.self.currentApplication
    simp only [system, step, hbody, Option.some.injEq] at hstep
    subst hstep
    split
    · exact h
    · exact ⟨h.clean, h.ordered, h.payload, h.pulled⟩
  | edited rv =>
    simp only [system, step, Option.ite_none_left_eq_some, Option.some.injEq] at hstep
    obtain ⟨-, rfl⟩ := hstep
    have same : PayloadTracked { o with editing := o.editing - 1 } :=
      ⟨h.clean, h.ordered, h.payload, h.pulled⟩
    apply settle_tracked same
    · intro self hself
      exact edited_payload hself
    · exact ⟨rv, .inr rfl⟩

theorem payloadTracked {o : Object} (ho : (system P).Reachable o) : PayloadTracked o := by
  apply ho.invariant _ payloadTracked_step
  constructor
  · intro e he
    cases he
  · intro source he
    cases he
  · rfl
  · intro batch result he
    cases he

theorem mem_pending {log : List Event} {source : Json} (h : source ∈ pending log) :
    .merged source ∈ log := by
  obtain ⟨e, he, hsource⟩ := List.mem_filterMap.mp (List.mem_reverse.mp h)
  cases e with
  | merged s =>
    cases hsource
    exact mem_of_mem_since he
  | _ => cases hsource

theorem mem_of_mem_pulls {log : List Event} {batch : List Json} {result source : Json}
    (h : (batch, result) ∈ pulls log) (hs : source ∈ batch) : .merged source ∈ log := by
  induction log with
  | nil => cases h
  | cons e older ih =>
    cases e with
    | pulled r =>
      rcases List.mem_append.mp h with h | h
      · exact List.mem_cons_of_mem _ (ih h)
      · cases List.mem_singleton.mp h
        exact List.mem_cons_of_mem _ (mem_pending hs)
    | _ => exact List.mem_cons_of_mem _ (ih h)

/-- **Merge and pull neither lose nor duplicate data.** In every reachable state no
merge or pull has thrown, and the payload is null or an object, namely the left fold
of `deep_merge` from null over the sources merged since the last pull. Each pull
returned such a fold with the application put over it, and each merged source belongs
to exactly one pull or to what is pending. At a path outside `application` where each
source of a batch has an array or nothing, the pull returned their concatenation. -/
theorem merge_pull (P : Platform) {o : Object} (ho : (system P).Reachable o) :
    (∀ e, .threw e ∉ o.log) ∧ o.self.payload.Mergeable ∧
    (pending o.log).foldlM deepMerge .null = .ok o.self.payload ∧
    merges o.log = (pulls o.log).flatMap Prod.fst ++ pending o.log ∧
    ∀ batch result, (batch, result) ∈ pulls o.log →
      (∃ folded application, batch.foldlM deepMerge .null = .ok folded ∧
        result = folded.put "application" application) ∧
      ∀ key path, key ≠ "application" →
        (∀ source ∈ batch, ArrayAlong path (source.itemAt key)) →
        ((∃ source ∈ batch, follow path (source.itemAt key) ≠ none) →
          follow (key :: path) (some result) = some (.array
            (batch.flatMap fun source => elementsOf (follow path (source.itemAt key))))) ∧
        ((∀ source ∈ batch, follow path (source.itemAt key) = none) →
          follow (key :: path) (some result) = none) := by
  have h := payloadTracked ho
  refine ⟨h.clean, h.payload ▸ mergeAll_mergeable _, h.payload ▸ foldlM_deepMerge _,
    merges_eq o.log, fun batch result hmem => ?_⟩
  obtain ⟨app, rfl⟩ := h.pulled batch result hmem
  refine ⟨⟨_, _, foldlM_deepMerge batch, rfl⟩, fun key path hkey along => ?_⟩
  have ordered : ∀ source ∈ batch, source.Ordered := fun source hs =>
    h.ordered source (mem_of_mem_pulls hmem hs)
  obtain ⟨halong, hnone, helements⟩ := follow_mergeAll ordered along
  have outside : follow (key :: path)
      (some ((mergeAll batch).put "application" (applicationValue app))) =
      follow path ((mergeAll batch).find? key) := by
    rw [follow, Option.bind_some, find?_put (mergeAll_mergeable batch), if_neg hkey]
  rw [outside]
  constructor
  · rintro ⟨source, hs, hsome⟩
    rw [← helements]
    apply eq_array_of_arrayAlong (arrayAlong_follow halong)
    intro hnil
    exact hsome (hnone.mp hnil source hs)
  · exact hnone.mpr

theorem singleton_ordered {v : Json} (h : v.Ordered) : (Json.object [("a", .array [v])]).Ordered := by
  simpa [Ordered, OrderedMembers, OrderedElements] using h

/-- Two sources with an array under one key, and a pull. -/
def listsPulled : Object :=
  ((system (.ofTable [] [])).run {}
    [.merge ⟨.object [("a", .array [.boolean true])], singleton_ordered trivial⟩,
      .merge ⟨.object [("a", .array [.null])], singleton_ordered trivial⟩,
      .pull]).get (by decide +kernel)

theorem merge_pull_listsPulled :
    ∃ result, pulls listsPulled.log =
        [([.object [("a", .array [.boolean true])], .object [("a", .array [.null])]], result)] ∧
      follow ["a"] (some result) = some (.array [.boolean true, .null]) := by
  obtain ⟨-, -, -, -, pulled⟩ :=
    merge_pull (.ofTable [] []) (o := listsPulled) ⟨_, (Option.some_get _).symm⟩
  obtain ⟨-, outside⟩ := pulled
    [.object [("a", .array [.boolean true])], .object [("a", .array [.null])]] _ List.mem_cons_self
  refine ⟨_, rfl, (outside "a" [] (by decide) ?_).1 ?_⟩
  · simp [ArrayAlong, itemAt, items, isArray]
  · exact ⟨_, List.mem_cons_self, by decide +kernel⟩

/-! ### After a completion -/

/-- A payload as it can be between two calls. -/
structure Payload where
  value : Json
  mergeable : value.Mergeable

/-- Sources merged one after the other while an acknowledgement is under way. -/
def mergeMeanwhile (a : AcknowledgePayload) (sources : List OrderedJson) :
    Except Exception AcknowledgePayload :=
  sources.foldlM (fun a source => a.merge source.value) a

/-- `send_acknowledgement` up to its tasks: the pull, the merges made while the request
is in flight, and its completion. The body it posts comes first, then the body of the
acknowledgement `exit` posts, if it is called, then the object. -/
def sendAcknowledgement (isCentral : Bool) (a : AcknowledgePayload) (sources : List OrderedJson)
    (response : HttpRequestCompletion) : Except Exception (Json × Option Json × AcknowledgePayload) := do
  let (body, a) ← a.pullPayload
  let a ← a.mergeMeanwhile sources
  let (last, a) ← a.acknowledged isCentral response
  return (body, last, a)

/-- The acknowledgement was accepted. -/
def acceptance (response : HttpRequestCompletion) : Bool :=
  response.status < 300 && response.error == .success

theorem mergeMeanwhile_eq (sources : List OrderedJson) :
    ∀ {a : AcknowledgePayload}, a.payload.Mergeable → a.mergeMeanwhile sources =
      .ok { a with payload := (sources.map OrderedJson.value).foldl merged a.payload } := by
  induction sources with
  | nil => exact fun _ => rfl
  | cons source rest ih =>
    intro a ha
    rw [mergeMeanwhile, List.foldlM_cons, merge_eq ha]
    exact ih (merged_mergeable ha)

/-- The call, step by step. -/
theorem sendAcknowledgement_eq (isCentral : Bool) {a : AcknowledgePayload}
    (h : a.payload.Mergeable) (sources : List OrderedJson) (response : HttpRequestCompletion) :
    sendAcknowledgement isCentral a sources response =
      .ok (a.payload.put "application" (applicationValue a.currentApplication),
        if response.status = 401 ∧ isCentral = false then
          (some ((mergeAll (sources.map OrderedJson.value)).put "application"
            (applicationValue a.currentApplication)), { a with payload := .null })
        else (none, { a with payload := mergeAll (sources.map OrderedJson.value) })) := by
  have pulled : ({ a with payload := .null } : AcknowledgePayload).payload.Mergeable := trivial
  have meanwhile : ({ a with payload := mergeAll (sources.map OrderedJson.value) } :
      AcknowledgePayload).payload.Mergeable := mergeAll_mergeable _
  simp only [sendAcknowledgement, pullPayload_eq h, bind, Except.bind,
    mergeMeanwhile_eq sources pulled, acknowledged]
  by_cases h401 : response.status = 401 ∧ isCentral = false
  · rw [if_pos h401, if_pos h401]
    rw [← mergeAll, pullPayload_eq meanwhile]
    rfl
  · rw [if_neg h401, if_neg h401]
    rfl

/-- **Nothing puts a pulled payload back.** Whatever the completion of an
acknowledgement, the payload went out with the body posted, and after the call the
payload is what the merges made meanwhile make of null. A 401 in tenant mode takes
these too, for the acknowledgement `exit` posts. -/
theorem payload_after_completion (isCentral : Bool) (payload : Payload) (app : Application)
    (sources : List OrderedJson) (response : HttpRequestCompletion) :
    ∃ body last a, sendAcknowledgement isCentral ⟨payload.value, app⟩ sources response =
        .ok (body, last, a) ∧
      body = payload.value.put "application" (applicationValue app) ∧
      if response.status = 401 ∧ isCentral = false then
        a.payload = .null ∧
          last = some ((mergeAll (sources.map OrderedJson.value)).put "application"
            (applicationValue app))
      else a.payload = mergeAll (sources.map OrderedJson.value) ∧ last = none := by
  have hsend := sendAcknowledgement_eq isCentral (a := ⟨payload.value, app⟩) payload.mergeable
    sources response
  by_cases h401 : response.status = 401 ∧ isCentral = false
  · rw [if_pos h401] at hsend
    refine ⟨_, _, _, hsend, rfl, ?_⟩
    rw [if_pos h401]
    exact ⟨rfl, rfl⟩
  · rw [if_neg h401] at hsend
    refine ⟨_, _, _, hsend, rfl, ?_⟩
    rw [if_neg h401]
    exact ⟨rfl, rfl⟩

/-- After an acknowledgement that was not accepted, the payload is what was pulled
merged with what arrived meanwhile. -/
def FailedKeepsPayload : Prop :=
  ∀ (isCentral : Bool) (payload : Payload) app (sources : List OrderedJson) response,
    acceptance response = false →
    ∃ body last a, sendAcknowledgement isCentral ⟨payload.value, app⟩ sources response =
        .ok (body, last, a) ∧
      a.payload = (sources.map OrderedJson.value).foldl merged payload.value

/-- **A refused acknowledgement loses its payload.** -/
theorem not_failedKeepsPayload : ¬ FailedKeepsPayload := by
  intro h
  let payload : Payload := ⟨.object [("a", .array [.numberUnsigned 1])], trivial⟩
  obtain ⟨body, last, a, hsend, hkept⟩ := h true payload {} [] { status := 500 } (by decide)
  rw [sendAcknowledgement_eq true payload.mergeable] at hsend
  cases hsend
  cases hkept

end AcknowledgePayload
