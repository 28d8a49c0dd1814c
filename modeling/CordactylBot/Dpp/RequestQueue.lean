import CordactylBot.Dpp.HttpsClient
import CordactylBot.Library.EventLog
import Mathlib.Data.List.Sort
import Mathlib.Data.String.Basic
import Std.Data.ExtTreeMap

/-!
One of the queues REST requests wait in (`queues.cpp`).

Requests wait in the order of their endpoints. A delivery gathers a view of the queue and
goes through it: it runs the requests until it comes to an endpoint whose last answer told
it to wait, and takes each out of the queue once it has run it. A timer starts a delivery
every second, and so does whoever posts a request, in its own thread; what two deliveries
do can alternate.

The labels are the stretches between two locks, the answers of the clients, and the work
their answers put into the thread pool. The data a request carries besides its endpoint
decides nothing here, so a number stands for it.
-/

/-- `dpp::http_request`. -/
structure RestRequest where
  id : Nat
  endpoint : String
deriving DecidableEq, Repr

/-- `dpp::bucket_t`. -/
structure Bucket where
  limit : UInt64
  remaining : UInt64
  resetAfter : UInt64
  retryAfter : UInt64
  timestamp : UInt64
deriving DecidableEq, Repr

namespace Bucket

/-- The bucket an answer makes. -/
def ofCompletion (result : RestCompletion) (now : UInt64) : Bucket where
  limit := result.ratelimitLimit
  remaining := result.ratelimitRemaining
  resetAfter := result.ratelimitResetAfter
  retryAfter := result.ratelimitRetryAfter
  timestamp := now

def wait (b : Bucket) : UInt64 :=
  if b.retryAfter ≠ 0 then b.retryAfter else b.resetAfter

/-- The bucket lets a request through. -/
def Allows (b : Bucket) (now : UInt64) : Prop :=
  1 ≤ b.remaining ∨ now > b.timestamp + b.wait

instance (b : Bucket) (now : UInt64) : Decidable (b.Allows now) :=
  inferInstanceAs (Decidable (_ ∨ _))

end Bucket

/-- Where a call of `tick_and_deliver_requests` stands. -/
inductive DeliveryStage where
  | starting
  | viewing (view : List RestRequest)
  /-- a request was run and is still in the queue -/
  | removing (request : RestRequest) (view : List RestRequest)
deriving DecidableEq, Repr

inductive QueueEvent where
  /-- a request was run, and its client made -/
  | sent (request : RestRequest) (now : UInt64)
  /-- a request was run, and its client could not be made -/
  | refused (request : RestRequest)
  | answered (request : RestRequest) (bucket : Bucket)
  /-- the handler of a request was called -/
  | handled (request : RestRequest) (result : RestCompletion)
deriving DecidableEq, Repr

/-- `dpp::request_concurrency_queue`, with the flags of the `request_queue` it belongs to,
the clients at work, the results in the thread pool, and a log, newest event first. -/
structure RequestQueue where
  requestsIn : List RestRequest := []
  removals : List RestRequest := []
  buckets : Std.ExtTreeMap String Bucket compare := ∅
  globallyRatelimited : Bool := false
  globallyLimitedUntil : UInt64 := 0
  terminating : Bool := false
  deliveries : List DeliveryStage := []
  clients : List RestRequest := []
  results : List (RestRequest × RestCompletion) := []
  completed : List RestRequest := []
  nextRequest : Nat := 0
  log : List QueueEvent := []

inductive QueueLabel where
  | post (endpoint : String)
  | timer
  | gather (delivery : Nat) (now : UInt64)
  /-- `connects` says whether the client can be made -/
  | look (delivery : Nat) (now : UInt64) (connects : Bool)
  | remove (delivery : Nat)
  | answer (request : RestRequest) (result : RestCompletion) (now : UInt64)
  | handle (request : RestRequest) (result : RestCompletion)
  | sweep
  | terminate
deriving DecidableEq, Repr

namespace RequestQueue

/-- A call of `tick_and_deliver_requests` begins. -/
def tick (q : RequestQueue) : RequestQueue :=
  { q with deliveries := q.deliveries ++ [.starting] }

def goTo (q : RequestQueue) (delivery : Nat) (stage : DeliveryStage) : RequestQueue :=
  { q with deliveries := q.deliveries.set delivery stage }

/-- A call of `tick_and_deliver_requests` returns. -/
def leave (q : RequestQueue) (delivery : Nat) : RequestQueue :=
  { q with deliveries := q.deliveries.eraseIdx delivery }

/-- `lower_bound` and `emplace`. -/
def insert (q : RequestQueue) (request : RestRequest) : RequestQueue :=
  { q with
    requestsIn := q.requestsIn.orderedInsert (fun a b => a.endpoint ≤ b.endpoint) request
    nextRequest := q.nextRequest + 1 }

/-- `post_request`. -/
def postRequest (q : RequestQueue) (endpoint : String) : RequestQueue :=
  if q.terminating then q else (q.insert { id := q.nextRequest, endpoint }).tick

/-- The first part of `tick_and_deliver_requests`. -/
def gather (q : RequestQueue) (delivery : Nat) (now : UInt64) : RequestQueue :=
  if q.terminating then q.leave delivery
  else if ¬ q.globallyRatelimited then
    if q.requestsIn = [] then q.leave delivery else q.goTo delivery (.viewing q.requestsIn)
  else if now > q.globallyLimitedUntil then
    { q.leave delivery with globallyLimitedUntil := 0, globallyRatelimited := false }
  else q.leave delivery

/-- No bucket holds requests to this endpoint back. -/
def Allowed (q : RequestQueue) (now : UInt64) (endpoint : String) : Prop :=
  ∀ bucket ∈ q.buckets[endpoint]?, bucket.Allows now

instance (q : RequestQueue) (now : UInt64) (endpoint : String) :
    Decidable (q.Allowed now endpoint) :=
  match h : q.buckets[endpoint]? with
  | none => isTrue (by simp [Allowed, h])
  | some bucket => decidable_of_iff (bucket.Allows now) (by simp [Allowed, h])

/-- `http_request::run`. When the client cannot be made, nobody is told. -/
def run (q : RequestQueue) (request : RestRequest) (now : UInt64) (connects : Bool) :
    RequestQueue :=
  if connects then { q with clients := request :: q.clients, log := .sent request now :: q.log }
  else { q with log := .refused request :: q.log }

/-- `equal_range` and `erase`: the request goes to the removals if it is still there. -/
def takeOut (q : RequestQueue) (request : RestRequest) : RequestQueue :=
  if request ∈ q.requestsIn then
    { q with
      requestsIn := q.requestsIn.erase request
      removals := q.removals ++ [request] }
  else q

/-- The completion handler of a client. The flag of the global limit is taken from the
completion as it was before the request, not from the result. -/
def answer (q : RequestQueue) (request : RestRequest) (result : RestCompletion) (now : UInt64) :
    RequestQueue :=
  let rv : RestCompletion := {}
  let newbucket := Bucket.ofCompletion result now
  { q with
    clients := q.clients.erase request
    globallyRatelimited := rv.ratelimitGlobal
    globallyLimitedUntil :=
      if rv.ratelimitGlobal then newbucket.wait + newbucket.timestamp else q.globallyLimitedUntil
    buckets := q.buckets.insert request.endpoint newbucket
    results := q.results ++ [(request, result)]
    log := .answered request newbucket :: q.log }

/-- The work in the thread pool: the handler is called, and the request is completed. -/
def handle (q : RequestQueue) (request : RestRequest) (result : RestCompletion) : RequestQueue :=
  { q with
    results := q.results.erase (request, result)
    completed := request :: q.completed
    log := .handled request result :: q.log }

@[simp] theorem goTo_deliveries (q : RequestQueue) (i : Nat) (stage : DeliveryStage) :
    (q.goTo i stage).deliveries = q.deliveries.set i stage := rfl

@[simp] theorem run_deliveries (q : RequestQueue) (request : RestRequest) (now : UInt64)
    (connects : Bool) : (q.run request now connects).deliveries = q.deliveries := by
  unfold run
  split <;> rfl

@[simp] theorem run_requestsIn (q : RequestQueue) (request : RestRequest) (now : UInt64)
    (connects : Bool) : (q.run request now connects).requestsIn = q.requestsIn := by
  unfold run
  split <;> rfl

@[simp] theorem run_nextRequest (q : RequestQueue) (request : RestRequest) (now : UInt64)
    (connects : Bool) : (q.run request now connects).nextRequest = q.nextRequest := by
  unfold run
  split <;> rfl

@[simp] theorem takeOut_deliveries (q : RequestQueue) (request : RestRequest) :
    (q.takeOut request).deliveries = q.deliveries := by
  unfold takeOut
  split <;> rfl

@[simp] theorem takeOut_log (q : RequestQueue) (request : RestRequest) :
    (q.takeOut request).log = q.log := by
  unfold takeOut
  split <;> rfl

/-- Removals that are completed are freed. -/
def sweep (q : RequestQueue) : RequestQueue :=
  { q with removals := q.removals.filter (· ∉ q.completed) }

def step (q : RequestQueue) : QueueLabel → Option RequestQueue
  | .post endpoint => some (q.postRequest endpoint)
  | .timer => some q.tick
  | .gather i now =>
      match q.deliveries[i]? with
      | some .starting => some (q.gather i now)
      | _ => none
  | .look i now connects =>
      match q.deliveries[i]? with
      | some (.viewing []) => some (q.leave i)
      | some (.viewing (request :: view)) =>
          if q.Allowed now request.endpoint then
            some ((q.run request now connects).goTo i (.removing request view))
          else some (q.leave i)
      | _ => none
  | .remove i =>
      match q.deliveries[i]? with
      | some (.removing request view) => some ((q.takeOut request).goTo i (.viewing view))
      | _ => none
  | .answer request result now =>
      if request ∈ q.clients then some (q.answer request result now) else none
  | .handle request result =>
      if (request, result) ∈ q.results then some (q.handle request result) else none
  | .sweep => some q.sweep
  | .terminate => some { q with terminating := true }

def system : Transition.System RequestQueue QueueLabel where
  start := {}
  step := step

/-- **Step inversion.** Everything a step can do. -/
inductive Stepped (q : RequestQueue) : QueueLabel → RequestQueue → Prop where
  | posted {endpoint : String} : q.terminating = false →
      Stepped q (.post endpoint) (q.insert { id := q.nextRequest, endpoint }).tick
  | dropped {endpoint : String} : q.terminating = true → Stepped q (.post endpoint) q
  | ticked : Stepped q .timer q.tick
  | gathered {i : Nat} {now : UInt64} : q.deliveries[i]? = some .starting →
      q.terminating = false → q.globallyRatelimited = false → q.requestsIn ≠ [] →
      Stepped q (.gather i now) (q.goTo i (.viewing q.requestsIn))
  | idle {i : Nat} {now : UInt64} : q.deliveries[i]? = some .starting →
      Stepped q (.gather i now) (q.leave i)
  | unlimited {i : Nat} {now : UInt64} : q.deliveries[i]? = some .starting →
      q.globallyRatelimited = true → Stepped q (.gather i now)
        { q.leave i with globallyLimitedUntil := 0, globallyRatelimited := false }
  | finished {i : Nat} {now : UInt64} {connects : Bool} : q.deliveries[i]? = some (.viewing []) →
      Stepped q (.look i now connects) (q.leave i)
  | ran {i : Nat} {now : UInt64} {connects : Bool} {request : RestRequest}
      {view : List RestRequest} : q.deliveries[i]? = some (.viewing (request :: view)) →
      q.Allowed now request.endpoint → Stepped q (.look i now connects)
        ((q.run request now connects).goTo i (.removing request view))
  | blocked {i : Nat} {now : UInt64} {connects : Bool} {request : RestRequest}
      {view : List RestRequest} : q.deliveries[i]? = some (.viewing (request :: view)) →
      ¬ q.Allowed now request.endpoint → Stepped q (.look i now connects) (q.leave i)
  | tookOut {i : Nat} {request : RestRequest} {view : List RestRequest} :
      q.deliveries[i]? = some (.removing request view) →
      Stepped q (.remove i) ((q.takeOut request).goTo i (.viewing view))
  | answered {request : RestRequest} {result : RestCompletion} {now : UInt64} :
      request ∈ q.clients → Stepped q (.answer request result now) (q.answer request result now)
  | handled {request : RestRequest} {result : RestCompletion} :
      (request, result) ∈ q.results → Stepped q (.handle request result) (q.handle request result)
  | swept : Stepped q .sweep q.sweep
  | terminated : Stepped q .terminate { q with terminating := true }

theorem stepped {q q' : RequestQueue} {l : QueueLabel} (h : step q l = some q') :
    Stepped q l q' := by
  cases l with
  | post endpoint =>
    cases h
    unfold postRequest
    split
    · rename_i hterm
      exact .dropped hterm
    · rename_i hterm
      exact .posted (by simpa using hterm)
  | timer =>
    cases h
    exact .ticked
  | gather i now =>
    simp only [step] at h
    split at h
    · rename_i hstart
      cases h
      unfold gather
      split
      · exact .idle hstart
      · rename_i hterm
        split
        · rename_i hglobal
          split
          · exact .idle hstart
          · rename_i hne
            exact .gathered hstart (by simpa using hterm) (by simpa using hglobal) hne
        · rename_i hglobal
          split
          · exact .unlimited hstart (by simpa using hglobal)
          · exact .idle hstart
    · cases h
  | look i now connects =>
    simp only [step] at h
    split at h
    · rename_i hview
      cases h
      exact .finished hview
    · rename_i hview
      split at h
      · rename_i hallowed
        cases h
        exact .ran hview hallowed
      · rename_i hallowed
        cases h
        exact .blocked hview hallowed
    · cases h
  | remove i =>
    simp only [step] at h
    split at h
    · rename_i hremoving
      cases h
      exact .tookOut hremoving
    · cases h
  | answer request result now =>
    simp only [step] at h
    split at h
    · rename_i hmem
      cases h
      exact .answered hmem
    · cases h
  | handle request result =>
    simp only [step] at h
    split at h
    · rename_i hmem
      cases h
      exact .handled hmem
    · cases h
  | sweep =>
    cases h
    exact .swept
  | terminate =>
    cases h
    exact .terminated

end RequestQueue
