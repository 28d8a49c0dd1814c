import CordactylBot.Dpp.RequestQueue

/-!
What holds of a queue however its deliveries, its posts and its answers alternate.

* `requestsIn_queued` — requests wait by endpoint, the newest of an endpoint in front.
* `sends_within_limits` — a request is sent only if the last answer from its endpoint
  allows it.
* `none_lost` — a request that was posted waits until it is run.
* `not_globallyRatelimited` — no answer makes the queue keep a global limit.
-/

open Transition

namespace RequestQueue

/-- The order of the queue. -/
def Before (a b : RestRequest) : Prop :=
  a.endpoint < b.endpoint ∨ a.endpoint = b.endpoint ∧ b.id < a.id

/-- A request was run. -/
def Started (request : RestRequest) (log : List QueueEvent) : Prop :=
  (∃ now, .sent request now ∈ log) ∨ .refused request ∈ log

/-- The bucket of an answer from an endpoint. -/
def answerFrom (endpoint : String) : QueueEvent → Option Bucket
  | .answered request bucket => if request.endpoint = endpoint then some bucket else none
  | _ => none

/-- The last answer from an endpoint. -/
def lastAnswer (endpoint : String) (log : List QueueEvent) : Option Bucket :=
  EventLog.latest (answerFrom endpoint) log

/-- Every request was sent when the last answer from its endpoint allowed it. -/
def WithinLimits : List QueueEvent → Prop
  | [] => True
  | .sent request now :: log =>
      (∀ bucket ∈ lastAnswer request.endpoint log, bucket.Allows now) ∧ WithinLimits log
  | _ :: log => WithinLimits log

variable {q q' : RequestQueue} {l : QueueLabel}

/-! ### The order of the queue -/

theorem Before.le {a b : RestRequest} (h : Before a b) : a.endpoint ≤ b.endpoint := by
  rcases h with h | ⟨h, -⟩
  · exact h.le
  · exact h.le

/-- A new request goes in front of those of its endpoint. -/
theorem pairwise_insert {requests : List RestRequest} {request : RestRequest}
    (h : requests.Pairwise Before) (newest : ∀ r ∈ requests, r.id < request.id) :
    (requests.orderedInsert (fun a b => a.endpoint ≤ b.endpoint) request).Pairwise Before := by
  induction requests with
  | nil => simp
  | cons b requests ih =>
    obtain ⟨hb, hrest⟩ := List.pairwise_cons.mp h
    rw [List.orderedInsert_cons]
    split
    · rename_i hle
      refine List.pairwise_cons.mpr ⟨fun r hr => ?_, h⟩
      have hbr : b.endpoint ≤ r.endpoint := by
        rcases List.mem_cons.mp hr with rfl | hr
        · exact le_refl _
        · exact (hb r hr).le
      rcases (hle.trans hbr).lt_or_eq with hlt | heq
      · exact .inl hlt
      · exact .inr ⟨heq, newest r hr⟩
    · rename_i hle
      have hlt : b.endpoint < request.endpoint := not_le.mp hle
      refine List.pairwise_cons.mpr ⟨fun r hr => ?_, ih hrest fun r hr =>
        newest r (List.mem_cons_of_mem _ hr)⟩
      rcases (List.mem_orderedInsert _).mp hr with rfl | hr
      · exact .inl hlt
      · exact hb r hr

/-- What a step does to the requests that wait. -/
inductive Waiting (q q' : RequestQueue) : Prop where
  | same : q'.requestsIn = q.requestsIn → q'.nextRequest = q.nextRequest → Waiting q q'
  | inserted (endpoint : String) : q'.requestsIn = (q.insert ⟨q.nextRequest, endpoint⟩).requestsIn →
      q'.nextRequest = q.nextRequest + 1 → Waiting q q'
  | tookOut (i : Nat) (request : RestRequest) (view : List RestRequest) :
      q.deliveries[i]? = some (.removing request view) → request ∈ q.requestsIn →
      q'.requestsIn = q.requestsIn.erase request → q'.nextRequest = q.nextRequest → Waiting q q'

theorem waiting (h : Stepped q l q') : Waiting q q' := by
  cases h with
  | posted => exact .inserted _ rfl rfl
  | tookOut hremoving =>
    unfold takeOut
    split
    · rename_i hmem
      exact .tookOut _ _ _ hremoving hmem rfl rfl
    · exact .same rfl rfl
  | ran => exact .same (run_requestsIn ..) (run_nextRequest ..)
  | _ => exact .same rfl rfl

/-- The requests that wait are in order and have been posted. -/
structure Queued (q : RequestQueue) : Prop where
  sorted : q.requestsIn.Pairwise Before
  posted : ∀ r ∈ q.requestsIn, r.id < q.nextRequest

theorem queued_preserved : system.Preserved Queued := by
  intro q l q' h hstep
  cases waiting (stepped hstep) with
  | same hin hnext => exact ⟨hin ▸ h.sorted, hin ▸ hnext ▸ h.posted⟩
  | inserted endpoint hin hnext =>
    refine ⟨hin ▸ pairwise_insert h.sorted h.posted, fun r hr => ?_⟩
    rw [hin] at hr
    rw [hnext]
    rcases (List.mem_orderedInsert _).mp hr with rfl | hr
    · exact Nat.lt_succ_self _
    · exact Nat.lt_succ_of_lt (h.posted r hr)
  | tookOut i request view _ _ hin hnext =>
    exact ⟨hin ▸ h.sorted.sublist List.erase_sublist,
      fun r hr => hnext ▸ h.posted r (List.mem_of_mem_erase (hin ▸ hr))⟩

theorem Before.ne {a b : RestRequest} (h : Before a b) : a ≠ b := by
  rintro rfl
  rcases h with h | ⟨-, h⟩
  · exact lt_irrefl _ h
  · exact lt_irrefl _ h

theorem Queued.nodup (h : Queued q) : q.requestsIn.Nodup :=
  h.sorted.imp Before.ne

theorem requestsIn_queued (h : system.Reachable q) : Queued q :=
  h.invariant ⟨List.Pairwise.nil, by simp [system]⟩ queued_preserved

/-! ### The log -/

/-- What a step adds to the log. -/
inductive Logged (q q' : RequestQueue) : Prop where
  | nothing : q'.log = q.log → q'.buckets = q.buckets → Logged q q'
  | sent (request : RestRequest) (now : UInt64) : q.Allowed now request.endpoint →
      q'.log = .sent request now :: q.log → q'.buckets = q.buckets → Logged q q'
  | refused (request : RestRequest) : q'.log = .refused request :: q.log →
      q'.buckets = q.buckets → Logged q q'
  | answered (request : RestRequest) (bucket : Bucket) :
      q'.log = .answered request bucket :: q.log →
      q'.buckets = q.buckets.insert request.endpoint bucket → Logged q q'
  | handled (request : RestRequest) (result : RestCompletion) :
      q'.log = .handled request result :: q.log → q'.buckets = q.buckets → Logged q q'

theorem logged (h : Stepped q l q') : Logged q q' := by
  cases h with
  | @ran i now connects request view _ hallowed =>
    cases connects with
    | true => exact .sent request now hallowed rfl rfl
    | false => exact .refused request rfl rfl
  | tookOut =>
    unfold takeOut
    split <;> exact .nothing rfl rfl
  | @answered request result now _ => exact .answered request (.ofCompletion result now) rfl rfl
  | handled => exact .handled _ _ rfl rfl
  | _ => exact .nothing rfl rfl

/-- The buckets are the last answers, and the limits have been kept. -/
structure Limited (q : RequestQueue) : Prop where
  buckets : ∀ endpoint, q.buckets[endpoint]? = lastAnswer endpoint q.log
  within : WithinLimits q.log

theorem limited_preserved : system.Preserved Limited := by
  intro q l q' h hstep
  cases logged (stepped hstep) with
  | nothing hlog hbuckets => exact ⟨hlog ▸ hbuckets ▸ h.buckets, hlog ▸ h.within⟩
  | sent request now hallowed hlog hbuckets =>
    refine ⟨fun endpoint => ?_, ?_⟩
    · rw [hbuckets, hlog, h.buckets, lastAnswer, lastAnswer, EventLog.latest_cons_of_none rfl]
    · rw [hlog]
      exact ⟨h.buckets _ ▸ hallowed, h.within⟩
  | refused request hlog hbuckets =>
    refine ⟨fun endpoint => ?_, hlog ▸ h.within⟩
    rw [hbuckets, hlog, h.buckets, lastAnswer, lastAnswer, EventLog.latest_cons_of_none rfl]
  | answered request bucket hlog hbuckets =>
    refine ⟨fun endpoint => ?_, hlog ▸ h.within⟩
    rw [hbuckets, hlog, Std.ExtTreeMap.getElem?_insert, lastAnswer]
    by_cases heq : request.endpoint = endpoint
    · have hanswer : answerFrom endpoint (.answered request bucket) = some bucket := if_pos heq
      rw [if_pos (by simp [heq]), EventLog.latest_cons_of_some hanswer]
    · have hanswer : answerFrom endpoint (.answered request bucket) = none := if_neg heq
      rw [if_neg (by simpa using heq), EventLog.latest_cons_of_none hanswer]
      exact h.buckets endpoint
  | handled request result hlog hbuckets =>
    refine ⟨fun endpoint => ?_, hlog ▸ h.within⟩
    rw [hbuckets, hlog, h.buckets, lastAnswer, lastAnswer, EventLog.latest_cons_of_none rfl]

/-- **The limits are kept**: in every interleaving, a request is sent only when the last answer
from its endpoint left calls over or its time has passed. -/
theorem sends_within_limits (h : system.Reachable q) : WithinLimits q.log :=
  (h.invariant ⟨fun _ => rfl, trivial⟩ limited_preserved : Limited q).within

/-- Two requests to one endpoint, the second after an answer without calls left. -/
theorem sends_within_limits_twice : ∃ q, system.run system.start
      [.post "/users/@me", .gather 0 100, .look 0 100 true, .remove 0, .look 0 100 true,
        .answer ⟨0, "/users/@me"⟩ { status := 200, ratelimitResetAfter := 5 } 100,
        .post "/users/@me", .gather 0 106, .look 0 106 true] = some q ∧
    WithinLimits q.log := by
  have hrun : (system.run system.start
      [.post "/users/@me", .gather 0 100, .look 0 100 true, .remove 0, .look 0 100 true,
        .answer ⟨0, "/users/@me"⟩ { status := 200, ratelimitResetAfter := 5 } 100,
        .post "/users/@me", .gather 0 106, .look 0 106 true]).isSome = true := by decide +kernel
  obtain ⟨q, hrun⟩ := Option.isSome_iff_exists.mp hrun
  exact ⟨q, hrun, sends_within_limits ⟨_, hrun⟩⟩

/-! ### Nothing is lost -/

theorem Started.mono {request : RestRequest} {log : List QueueEvent} (h : Started request log)
    (event : QueueEvent) : Started request (event :: log) := by
  rcases h with ⟨now, h⟩ | h
  · exact .inl ⟨now, List.mem_cons_of_mem _ h⟩
  · exact .inr (List.mem_cons_of_mem _ h)

theorem started_of_stepped {request : RestRequest} (h : Stepped q l q')
    (hr : Started request q.log) : Started request q'.log := by
  cases logged h with
  | nothing hlog => exact hlog ▸ hr
  | sent _ _ _ hlog | refused _ hlog | answered _ _ hlog | handled _ _ hlog =>
    exact hlog ▸ hr.mono _

/-- A request that was posted waits or was run, and only one that was run is taken out. -/
structure Kept (q : RequestQueue) : Prop where
  posted : ∀ id < q.nextRequest, ∃ r, r.id = id ∧ (r ∈ q.requestsIn ∨ Started r q.log)
  removing : ∀ request view, .removing request view ∈ q.deliveries → Started request q.log

/-- Where a request is taken out of the queue, it was run. -/
theorem removing_of_stepped (h : Stepped q l q') {request : RestRequest} {view : List RestRequest}
    (hmem : .removing request view ∈ q'.deliveries) :
    .removing request view ∈ q.deliveries ∨ Started request q'.log := by
  have viewing : ∀ {i : Nat} {rest : List RestRequest},
      .removing request view ∈ q.deliveries.set i (.viewing rest) →
      .removing request view ∈ q.deliveries := fun hset =>
    (List.mem_or_eq_of_mem_set hset).resolve_right nofun
  cases h with
  | posted | ticked =>
    rcases List.mem_append.mp hmem with hmem | hmem
    · exact .inl hmem
    · simp at hmem
  | gathered => exact .inl (viewing hmem)
  | idle | unlimited | finished | blocked => exact .inl (List.mem_of_mem_eraseIdx hmem)
  | @ran i now connects r view' =>
    cases connects with
    | true =>
      rcases List.mem_or_eq_of_mem_set hmem with hmem | heq
      · exact .inl hmem
      · cases heq
        exact .inr (.inl ⟨now, List.mem_cons_self⟩)
    | false =>
      rcases List.mem_or_eq_of_mem_set hmem with hmem | heq
      · exact .inl hmem
      · cases heq
        exact .inr (.inr List.mem_cons_self)
  | tookOut =>
    rw [goTo_deliveries, takeOut_deliveries] at hmem
    exact .inl (viewing hmem)
  | _ => exact .inl hmem

theorem kept_preserved : system.Preserved Kept := by
  intro q l q' h hstep
  have hs := stepped hstep
  refine ⟨fun id hid => ?_, fun request view hmem => ?_⟩
  · have still : (∃ r, r.id = id ∧ (r ∈ q.requestsIn ∨ Started r q.log)) →
        (∀ r ∈ q.requestsIn, r ∈ q'.requestsIn ∨ Started r q'.log) →
        ∃ r, r.id = id ∧ (r ∈ q'.requestsIn ∨ Started r q'.log) := by
      rintro ⟨r, hr, hin | hstarted⟩ stays
      · exact ⟨r, hr, stays r hin⟩
      · exact ⟨r, hr, .inr (started_of_stepped hs hstarted)⟩
    cases waiting hs with
    | same hin hnext => exact still (h.posted id (hnext ▸ hid)) fun r hr => .inl (hin ▸ hr)
    | inserted endpoint hin hnext =>
      rw [hnext] at hid
      rcases Nat.lt_succ_iff_lt_or_eq.mp hid with hid | rfl
      · exact still (h.posted id hid) fun r hr =>
          .inl (hin ▸ (List.mem_orderedInsert _).mpr (.inr hr))
      · exact ⟨⟨q.nextRequest, endpoint⟩, rfl, .inl (hin ▸ (List.mem_orderedInsert _).mpr (.inl rfl))⟩
    | tookOut i request view hremoving _ hin hnext =>
      refine still (h.posted id (hnext ▸ hid)) fun r hr => ?_
      by_cases heq : r = request
      · subst heq
        exact .inr (started_of_stepped hs (h.removing r view (List.mem_of_getElem? hremoving)))
      · exact .inl (hin ▸ (List.mem_erase_of_ne heq).mpr hr)
  · rcases removing_of_stepped hs hmem with hmem | hstarted
    · exact started_of_stepped hs (h.removing request view hmem)
    · exact hstarted

/-- **Nothing is lost**: in every interleaving, a request the queue has taken waits in it until
it is run. A queue that terminates takes none. -/
theorem none_lost (h : system.Reachable q) :
    ∀ id < q.nextRequest, ∃ r, r.id = id ∧ (r ∈ q.requestsIn ∨ Started r q.log) :=
  (h.invariant ⟨by simp [system], by simp [system]⟩ kept_preserved : Kept q).posted

/-- One request is run, and another one waits. -/
def partlyRun : List QueueLabel :=
  [.post "/gateway", .gather 0 100, .look 0 100 true, .post "/gateway"]

theorem none_lost_partlyRun : ∃ q, system.run system.start partlyRun = some q ∧
    q.nextRequest = 2 ∧ q.requestsIn ≠ [] ∧ Started ⟨0, "/gateway"⟩ q.log ∧
    ∀ id < q.nextRequest, ∃ r, r.id = id ∧ (r ∈ q.requestsIn ∨ Started r q.log) := by
  let q := (system.run system.start partlyRun).get (by decide +kernel)
  have hrun : system.run system.start partlyRun = some q := (Option.some_get _).symm
  exact ⟨q, hrun, by decide +kernel, by decide +kernel, .inl ⟨100, by decide +kernel⟩,
    none_lost ⟨_, hrun⟩⟩

/-! ### The global limit -/

/-- **The global limit is never kept**, whatever an answer says about it. -/
theorem not_globallyRatelimited (h : system.Reachable q) : q.globallyRatelimited = false := by
  refine h.invariant (P := fun q => q.globallyRatelimited = false) rfl ?_
  intro q l q' h hstep
  cases stepped hstep with
  | ran =>
    simp only [goTo, run]
    split <;> exact h
  | tookOut =>
    simp only [goTo, takeOut]
    split <;> exact h
  | answered | unlimited => rfl
  | _ => exact h

end RequestQueue
