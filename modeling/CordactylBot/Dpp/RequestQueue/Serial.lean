import CordactylBot.Dpp.RequestQueue.Limits

/-!
Runs in which one delivery has returned before the next begins.

* `run_once` — a request is run once, and its handler called once.
* `freed_after_handled` — a request is not freed while its client or its result needs it.
* `delivery_run` — what a delivery that nothing happens next to sends, and what it leaves.

When deliveries alternate, two of them can hold the same request in their views, and both
run it.
-/

open Transition
open scoped List

namespace RequestQueue

/-- After the step at most one delivery is under way. -/
def OneDelivery (_ : RequestQueue) (_ : QueueLabel) (q : RequestQueue) : Prop :=
  q.deliveries.length ≤ 1

instance (q : RequestQueue) (l : QueueLabel) (q' : RequestQueue) : Decidable (OneDelivery q l q') :=
  inferInstanceAs (Decidable (_ ≤ _))

def sentOf : QueueEvent → Option RestRequest
  | .sent request _ => some request
  | _ => none

def startedOf : QueueEvent → Option RestRequest
  | .sent request _ => some request
  | .refused request => some request
  | _ => none

def handledOf : QueueEvent → Option RestRequest
  | .handled request _ => some request
  | _ => none

/-- The requests that were run, sent, and had their handler called. -/
def started (q : RequestQueue) : List RestRequest :=
  q.log.filterMap startedOf

def sent (q : RequestQueue) : List RestRequest :=
  q.log.filterMap sentOf

def handled (q : RequestQueue) : List RestRequest :=
  q.log.filterMap handledOf

/-- The delivery under way sees the queue, and of the queue it has run what it takes out. -/
def StageOk (requestsIn started : List RestRequest) : List DeliveryStage → Prop
  | [] | [.starting] => ∀ r ∈ requestsIn, r ∉ started
  | [.viewing view] => requestsIn = view ∧ ∀ r ∈ view, r ∉ started
  | [.removing request view] =>
      requestsIn = request :: view ∧ request ∈ started ∧ ∀ r ∈ view, r ∉ started
  | _ => False

/-- What one delivery at a time keeps. -/
structure Serial (q : RequestQueue) : Prop where
  queued : Queued q
  stage : StageOk q.requestsIn q.started q.deliveries
  posted : ∀ r ∈ q.started, r.id < q.nextRequest
  nodup : q.started.Nodup
  /-- a request that was sent is with its client, in the thread pool, or handled -/
  sent : q.clients ++ (q.results.map Prod.fst ++ q.completed) ~ q.sent
  handled : q.completed = q.handled
  alive : ∀ r, r ∈ q.clients ∨ r ∈ q.results.map Prod.fst → r ∈ q.requestsIn ∨ r ∈ q.removals

variable {q q' : RequestQueue} {l : QueueLabel}

theorem sublist_started (log : List QueueEvent) :
    (log.filterMap sentOf).Sublist (log.filterMap startedOf) := by
  induction log with
  | nil => exact List.Sublist.refl _
  | cons event log ih =>
    cases event with
    | sent request now => exact ih.cons_cons request
    | refused request => exact ih.cons request
    | answered | handled => exact ih

theorem Serial.flow_nodup (h : Serial q) :
    (q.clients ++ (q.results.map Prod.fst ++ q.completed)).Nodup :=
  h.sent.nodup_iff.mpr (h.nodup.sublist (sublist_started q.log))

/-- One delivery is under way. -/
theorem eq_of_stage {requestsIn started : List RestRequest} {deliveries : List DeliveryStage}
    {i : Nat} {stage : DeliveryStage} (h : StageOk requestsIn started deliveries)
    (hi : deliveries[i]? = some stage) : i = 0 ∧ deliveries = [stage] := by
  match deliveries, h with
  | [], _ => simp at hi
  | [d], _ =>
    cases i with
    | zero =>
      cases hi
      exact ⟨rfl, rfl⟩
    | succ i => simp at hi
  | d :: e :: ds, h => cases d <;> exact h.elim

/-- No delivery is under way when the next one begins. -/
theorem no_delivery {d : DeliveryStage} (h : (q.deliveries ++ [d]).length ≤ 1) :
    q.deliveries = [] := by
  rw [List.length_append, List.length_singleton] at h
  exact List.length_eq_zero_iff.mp (by omega)

theorem serial_preserved (q : RequestQueue) (l : QueueLabel) (q' : RequestQueue) (h : Serial q)
    (hstep : system.step q l = some q') (one : OneDelivery q l q') : Serial q' := by
  have hqueued := queued_preserved q l q' h.queued hstep
  cases stepped hstep with
  | @posted endpoint hterm =>
    have hnone := no_delivery one
    have hstage := h.stage
    have fresh : ∀ r ∈ (q.insert ⟨q.nextRequest, endpoint⟩).requestsIn, r ∉ q.started := by
      rw [show q.deliveries = [] from hnone] at hstage
      intro r hr
      rcases (List.mem_orderedInsert _).mp hr with rfl | hr
      · exact fun hmem => Nat.lt_irrefl _ (h.posted _ hmem)
      · exact hstage r hr
    refine ⟨hqueued, ?_, fun r hr => Nat.lt_succ_of_lt (h.posted r hr), h.nodup, h.sent, h.handled,
      fun r hr => ?_⟩
    · have : (q.insert ⟨q.nextRequest, endpoint⟩).tick.deliveries = [.starting] := by
        simp [tick, insert, show q.deliveries = [] from hnone]
      rw [this]
      exact fresh
    · exact (h.alive r hr).imp_left fun hin => (List.mem_orderedInsert _).mpr (.inr hin)
  | dropped => exact h
  | ticked =>
    have hnone : q.deliveries = [] := no_delivery one
    have hstage := h.stage
    rw [hnone] at hstage
    refine ⟨hqueued, ?_, h.posted, h.nodup, h.sent, h.handled, h.alive⟩
    have : q.tick.deliveries = [.starting] := by simp [tick, hnone]
    rw [this]
    exact hstage
  | gathered hstart =>
    obtain ⟨rfl, hone⟩ := eq_of_stage h.stage hstart
    have hstage := h.stage
    rw [hone] at hstage
    refine ⟨hqueued, ?_, h.posted, h.nodup, h.sent, h.handled, h.alive⟩
    rw [goTo_deliveries, hone]
    exact ⟨rfl, hstage⟩
  | idle hstart | unlimited hstart =>
    obtain ⟨rfl, hone⟩ := eq_of_stage h.stage hstart
    have hstage := h.stage
    rw [hone] at hstage
    refine ⟨hqueued, ?_, h.posted, h.nodup, h.sent, h.handled, h.alive⟩
    have : (q.leave 0).deliveries = [] := by simp [leave, hone]
    rw [this]
    exact hstage
  | finished hview | blocked hview =>
    obtain ⟨rfl, hone⟩ := eq_of_stage h.stage hview
    have hstage := h.stage
    rw [hone] at hstage
    refine ⟨hqueued, ?_, h.posted, h.nodup, h.sent, h.handled, h.alive⟩
    have : (q.leave 0).deliveries = [] := by simp [leave, hone]
    rw [this]
    exact hstage.1 ▸ hstage.2
  | @ran i now connects request view hview hallowed =>
    obtain ⟨rfl, hone⟩ := eq_of_stage h.stage hview
    have hstage := h.stage
    rw [hone] at hstage
    obtain ⟨hin, hfresh⟩ := hstage
    have hmem : request ∈ q.requestsIn := hin ▸ List.mem_cons_self
    have hnot : request ∉ q.started := hfresh request List.mem_cons_self
    have hstage' : StageOk q.requestsIn (request :: q.started) [.removing request view] := by
      refine ⟨hin, List.mem_cons_self, fun r hr => ?_⟩
      have hne : r ≠ request := by
        have := h.queued.nodup
        rw [hin] at this
        exact fun heq => (List.nodup_cons.mp this).1 (heq ▸ hr)
      exact fun hmem => (List.mem_cons.mp hmem).elim hne (hfresh r (List.mem_cons_of_mem _ hr))
    have hposted : ∀ r ∈ request :: q.started, r.id < q.nextRequest := by
      intro r hr
      rcases List.mem_cons.mp hr with rfl | hr
      · exact h.queued.posted r hmem
      · exact h.posted r hr
    have hnodup : (request :: q.started).Nodup := List.nodup_cons.mpr ⟨hnot, h.nodup⟩
    have hdeliveries : q.deliveries.set 0 (.removing request view) = [.removing request view] := by
      rw [hone]
      rfl
    cases connects with
    | true =>
      refine ⟨hqueued, ?_, hposted, hnodup, h.sent.cons request, h.handled, fun r hr => ?_⟩
      · rw [goTo_deliveries, run_deliveries, hdeliveries]
        exact hstage'
      · rcases hr with hr | hr
        · rcases List.mem_cons.mp hr with rfl | hr
          · exact .inl hmem
          · exact h.alive r (.inl hr)
        · exact h.alive r (.inr hr)
    | false =>
      refine ⟨hqueued, ?_, hposted, hnodup, h.sent, h.handled, h.alive⟩
      rw [goTo_deliveries, run_deliveries, hdeliveries]
      exact hstage'
  | @tookOut i request view hremoving =>
    obtain ⟨rfl, hone⟩ := eq_of_stage h.stage hremoving
    have hstage := h.stage
    rw [hone] at hstage
    obtain ⟨hin, -, hfresh⟩ := hstage
    have hmem : request ∈ q.requestsIn := hin ▸ List.mem_cons_self
    have htake : q.takeOut request = { q with
        requestsIn := view, removals := q.removals ++ [request] } := by
      rw [takeOut, if_pos hmem, hin, List.erase_cons_head]
    rw [htake] at hqueued ⊢
    refine ⟨hqueued, ?_, h.posted, h.nodup, h.sent, h.handled, fun r hr => ?_⟩
    · rw [goTo_deliveries, hone]
      exact ⟨rfl, hfresh⟩
    · rcases h.alive r hr with hr | hr
      · rw [hin] at hr
        rcases List.mem_cons.mp hr with rfl | hr
        · exact .inr (List.mem_append_right _ (List.mem_singleton_self _))
        · exact .inl hr
      · exact .inr (List.mem_append_left _ hr)
  | @answered request result now hmem =>
    have hclients : q.clients.Perm (request :: q.clients.erase request) :=
      List.perm_cons_erase hmem
    refine ⟨hqueued, h.stage, h.posted, h.nodup, ?_, h.handled, fun r hr => ?_⟩
    · refine List.Perm.trans ?_ h.sent
      calc q.clients.erase request ++
            ((q.results ++ [(request, result)]).map Prod.fst ++ q.completed)
          = q.clients.erase request ++
              (q.results.map Prod.fst ++ request :: q.completed) := by simp
        _ ~ q.clients.erase request ++ (request :: (q.results.map Prod.fst ++ q.completed)) :=
          List.perm_middle.append_left _
        _ ~ request :: q.clients.erase request ++ (q.results.map Prod.fst ++ q.completed) :=
          List.perm_middle
        _ ~ q.clients ++ (q.results.map Prod.fst ++ q.completed) := hclients.symm.append_right _
    · refine h.alive r ?_
      rcases hr with hr | hr
      · exact .inl (List.mem_of_mem_erase hr)
      · simp only [answer, List.map_append, List.mem_append, List.map_cons, List.map_nil,
          List.mem_singleton] at hr
        rcases hr with hr | rfl
        · exact .inr hr
        · exact .inl hmem
  | @handled request result hmem =>
    have hresults : q.results.Perm ((request, result) :: q.results.erase (request, result)) :=
      List.perm_cons_erase hmem
    refine ⟨hqueued, h.stage, h.posted, h.nodup, ?_, ?_, fun r hr => h.alive r ?_⟩
    · refine List.Perm.trans (List.Perm.append_left _ ?_) h.sent
      calc (q.results.erase (request, result)).map Prod.fst ++ request :: q.completed
          ~ request :: (q.results.erase (request, result)).map Prod.fst ++ q.completed :=
          List.perm_middle
        _ ~ q.results.map Prod.fst ++ q.completed := (hresults.map Prod.fst).symm.append_right _
    · exact congrArg (request :: ·) h.handled
    · rcases hr with hr | hr
      · exact .inl hr
      · obtain ⟨entry, hentry, rfl⟩ := List.mem_map.mp hr
        exact .inr (List.mem_map.mpr ⟨entry, List.mem_of_mem_erase hentry, rfl⟩)
  | swept =>
    refine ⟨hqueued, h.stage, h.posted, h.nodup, h.sent, h.handled, fun r hr => ?_⟩
    have hnot : r ∉ q.completed := by
      have hnodup := h.flow_nodup
      rw [List.nodup_append, List.nodup_append] at hnodup
      intro hcompleted
      rcases hr with hr | hr
      · exact hnodup.2.2 r hr r (List.mem_append_right _ hcompleted) rfl
      · exact hnodup.2.1.2.2 r hr r hcompleted rfl
    exact (h.alive r hr).imp_right fun hin => List.mem_filter.mpr ⟨hin, by simpa using hnot⟩
  | terminated => exact ⟨hqueued, h.stage, h.posted, h.nodup, h.sent, h.handled, h.alive⟩

theorem serial_run {labels : List QueueLabel} (one : system.Along OneDelivery system.start labels)
    (hrun : system.run system.start labels = some q) : Serial q :=
  one.invariant serial_preserved
    ⟨⟨List.Pairwise.nil, by simp [system]⟩, by simp [system, StageOk], by simp [system, started],
      List.nodup_nil, List.Perm.refl _, rfl, by simp [system]⟩ hrun

/-- **Once**: one delivery at a time runs no request twice, and calls no handler twice, nor one of
a request that was not sent; when all clients have answered and their results were taken on,
the handlers of all requests that were sent have been called. -/
theorem run_once {labels : List QueueLabel} (one : system.Along OneDelivery system.start labels)
    (hrun : system.run system.start labels = some q) :
    q.started.Nodup ∧ q.handled.Nodup ∧ q.handled ⊆ q.sent ∧
      (q.clients = [] → q.results = [] → q.handled ~ q.sent) := by
  have h := serial_run one hrun
  have hnodup := h.flow_nodup
  refine ⟨h.nodup, ?_, fun r hr => h.sent.subset ?_, fun hclients hresults => ?_⟩
  · rw [← h.handled]
    exact (List.nodup_append.mp (List.nodup_append.mp hnodup).2.1).2.1
  · rw [← h.handled] at hr
    exact List.mem_append_right _ (List.mem_append_right _ hr)
  · have hsent := h.sent
    rw [hclients, hresults, h.handled] at hsent
    exact hsent

/-- **Not freed too early**: what a client or the thread pool still refers to is there. -/
theorem freed_after_handled {labels : List QueueLabel}
    (one : system.Along OneDelivery system.start labels)
    (hrun : system.run system.start labels = some q) :
    ∀ r, r ∈ q.clients ∨ r ∈ q.results.map Prod.fst → r ∈ q.requestsIn ∨ r ∈ q.removals :=
  (serial_run one hrun).alive

/-! ### What one delivery does -/

/-- The requests a delivery at one time runs, and those it leaves. -/
def runnable (q : RequestQueue) (now : UInt64) : List RestRequest :=
  q.requestsIn.takeWhile (q.Allowed now ·.endpoint)

def heldBack (q : RequestQueue) (now : UInt64) : List RestRequest :=
  q.requestsIn.dropWhile (q.Allowed now ·.endpoint)

/-- The queue after a delivery whose clients can all be made. -/
def delivered (q : RequestQueue) (now : UInt64) : RequestQueue :=
  { q with
    requestsIn := q.heldBack now
    removals := q.removals ++ q.runnable now
    clients := (q.runnable now).reverse ++ q.clients
    log := ((q.runnable now).map (.sent · now)).reverse ++ q.log
    deliveries := [] }

def loopLabels (now : UInt64) (runs : List RestRequest) : List QueueLabel :=
  runs.flatMap (fun _ => [.look 0 now true, .remove 0]) ++ [.look 0 now true]

/-- The steps of a delivery. -/
def deliveryLabels (q : RequestQueue) (now : UInt64) : List QueueLabel :=
  [.timer, .gather 0 now] ++
    if q.requestsIn = [] then [] else loopLabels now (q.runnable now)

/-- The queue when the delivery has run a request and taken it out. -/
def ranFirst (q : RequestQueue) (now : UInt64) (request : RestRequest) (view : List RestRequest) :
    RequestQueue :=
  { q with
    requestsIn := view
    removals := q.removals ++ [request]
    clients := request :: q.clients
    log := .sent request now :: q.log
    deliveries := [.viewing view] }

theorem run_cons_of_step {labels : List QueueLabel} (h : step q l = some q') :
    system.run q (l :: labels) = system.run q' labels := by
  rw [System.run, show system.step q l = some q' from h, Option.bind_some]

theorem ranFirst_run {now : UInt64} {request : RestRequest} {view : List RestRequest}
    (hone : q.deliveries = [.viewing (request :: view)]) (hin : q.requestsIn = request :: view)
    (hallowed : q.Allowed now request.endpoint) (labels : List QueueLabel) :
    system.run q (.look 0 now true :: .remove 0 :: labels) =
      system.run (q.ranFirst now request view) labels := by
  have first : step q (.look 0 now true) =
      some ((q.run request now true).goTo 0 (.removing request view)) := by
    simp only [step, hone, List.getElem?_cons_zero, if_pos hallowed]
  have second : step ((q.run request now true).goTo 0 (.removing request view)) (.remove 0) =
      some (q.ranFirst now request view) := by
    simp [step, run, goTo, hone, takeOut, hin, ranFirst]
  rw [run_cons_of_step first, run_cons_of_step second]

/-- The delivery returns at an endpoint that holds back, or at the end of its view. -/
theorem last_look {now : UInt64} {view : List RestRequest} (hone : q.deliveries = [.viewing view])
    (hnone : q.runnable now = []) (hin : q.requestsIn = view) :
    step q (.look 0 now true) = some (q.delivered now) := by
  have hdelivered : q.delivered now = q.leave 0 := by
    have hheld : q.heldBack now = q.requestsIn := by
      have := List.takeWhile_append_dropWhile (p := (q.Allowed now ·.endpoint)) (l := q.requestsIn)
      rwa [show q.requestsIn.takeWhile (q.Allowed now ·.endpoint) = [] from hnone] at this
    simp [delivered, leave, hnone, hheld, hone]
  cases view with
  | nil => simp only [step, hone, List.getElem?_cons_zero, hdelivered]
  | cons request view =>
    have hblocked : ¬ q.Allowed now request.endpoint := fun hallowed => by
      simp [runnable, hin, hallowed] at hnone
    simp only [step, hone, List.getElem?_cons_zero, if_neg hblocked, hdelivered]

theorem loop_run {now : UInt64} {view : List RestRequest} (hone : q.deliveries = [.viewing view])
    (hin : q.requestsIn = view) :
    system.run q (loopLabels now (q.runnable now)) = some (q.delivered now) := by
  induction view generalizing q with
  | nil =>
    have hnone : q.runnable now = [] := by simp [runnable, hin]
    rw [hnone, loopLabels, List.flatMap_nil, List.nil_append,
      run_cons_of_step (last_look hone hnone hin), System.run_nil]
  | cons request view ih =>
    by_cases hallowed : q.Allowed now request.endpoint
    · have hruns : q.runnable now = request :: (q.ranFirst now request view).runnable now := by
        rw [runnable, hin, List.takeWhile_cons, if_pos (decide_eq_true hallowed)]
        rfl
      have hheld : q.heldBack now = (q.ranFirst now request view).heldBack now := by
        rw [heldBack, hin, List.dropWhile_cons, if_pos (decide_eq_true hallowed)]
        rfl
      have hdelivered : (q.ranFirst now request view).delivered now = q.delivered now := by
        simp [delivered, hruns, hheld, ranFirst]
      rw [hruns, loopLabels, List.flatMap_cons, List.append_assoc]
      exact (ranFirst_run hone hin hallowed _).trans (hdelivered ▸ ih rfl rfl)
    · have hnone : q.runnable now = [] := by
        rw [runnable, hin, List.takeWhile_cons, if_neg (by simpa using hallowed)]
      rw [hnone, loopLabels, List.flatMap_nil, List.nil_append,
        run_cons_of_step (last_look hone hnone hin), System.run_nil]

/-- **A delivery** that nothing happens next to sends, the newest of an endpoint first, all
requests up to the first endpoint that holds back, and leaves that one and all behind it. -/
theorem delivery_run (h : system.Reachable q) (hidle : q.deliveries = [])
    (hup : q.terminating = false) (now : UInt64) :
    system.run q (deliveryLabels q now) = some (q.delivered now) ∧
      (q.delivered now).requestsIn.Pairwise Before ∧
      (∀ r ∈ q.runnable now, ∀ r' ∈ (q.delivered now).requestsIn, Before r r') ∧
      ∀ r ∈ (q.delivered now).requestsIn.head?, ¬ q.Allowed now r.endpoint := by
  have hsorted := (requestsIn_queued h).sorted
  have hsplit : q.runnable now ++ q.heldBack now = q.requestsIn :=
    List.takeWhile_append_dropWhile
  rw [← hsplit, List.pairwise_append] at hsorted
  refine ⟨?_, hsorted.2.1, hsorted.2.2, fun r hr => ?_⟩
  · have hglobal := not_globallyRatelimited h
    have first : step q .timer = some q.tick := rfl
    have htick : q.tick.deliveries = [.starting] := by simp [tick, hidle]
    rw [deliveryLabels, List.cons_append, List.cons_append, List.nil_append,
      run_cons_of_step first]
    by_cases hempty : q.requestsIn = []
    · have second : step q.tick (.gather 0 now) = some (q.delivered now) := by
        simp [step, gather, tick, hidle, hup, hglobal, hempty, leave, delivered, runnable, heldBack]
      rw [if_pos hempty, run_cons_of_step second, System.run_nil]
    · have second : step q.tick (.gather 0 now) =
          some { q with deliveries := [.viewing q.requestsIn] } := by
        simp [step, gather, tick, hidle, hup, hglobal, hempty, goTo]
      rw [if_neg hempty, run_cons_of_step second]
      exact loop_run (q := { q with deliveries := [.viewing q.requestsIn] }) rfl rfl
  · have hhead := List.head?_dropWhile_not (q.Allowed now ·.endpoint) q.requestsIn
    rw [show q.requestsIn.dropWhile (q.Allowed now ·.endpoint) = (q.delivered now).requestsIn from rfl,
      Option.mem_def.mp hr] at hhead
    simpa using hhead

/-- A run at whose end a request waits for an answer of two hours. -/
def limitedRun : List QueueLabel :=
  [.post "/channels/2", .gather 0 100, .look 0 100 true, .remove 0, .look 0 100 true,
    .answer ⟨0, "/channels/2"⟩ { status := 429, ratelimitRetryAfter := 7200 } 100,
    .handle ⟨0, "/channels/2"⟩ { status := 429, ratelimitRetryAfter := 7200 },
    .post "/channels/2", .gather 0 101, .look 0 101 true]

theorem run_once_limited : ∃ q, system.run system.start limitedRun = some q ∧
    q.started.Nodup ∧ q.handled.Nodup ∧ q.handled ⊆ q.sent ∧
      (q.clients = [] → q.results = [] → q.handled ~ q.sent) := by
  have hrun : (system.run system.start limitedRun).isSome = true := by decide +kernel
  obtain ⟨q, hrun⟩ := Option.isSome_iff_exists.mp hrun
  exact ⟨q, hrun, run_once (by decide +kernel) hrun⟩

theorem freed_after_handled_limited : ∃ q, system.run system.start limitedRun = some q ∧
    ∀ r, r ∈ q.clients ∨ r ∈ q.results.map Prod.fst → r ∈ q.requestsIn ∨ r ∈ q.removals := by
  have hrun : (system.run system.start limitedRun).isSome = true := by decide +kernel
  obtain ⟨q, hrun⟩ := Option.isSome_iff_exists.mp hrun
  exact ⟨q, hrun, freed_after_handled (by decide +kernel) hrun⟩

/-- Two hours later the request is sent. -/
theorem delivery_run_limited : ∃ q, system.run system.start limitedRun = some q ∧
    system.run q (deliveryLabels q 7301) = some (q.delivered 7301) ∧
      (q.delivered 7301).requestsIn.Pairwise Before ∧
      (∀ r ∈ q.runnable 7301, ∀ r' ∈ (q.delivered 7301).requestsIn, Before r r') ∧
      ∀ r ∈ (q.delivered 7301).requestsIn.head?, ¬ q.Allowed 7301 r.endpoint := by
  have hrun : ((system.run system.start limitedRun).map fun q => (q.deliveries, q.terminating)) =
      some ([], false) := by decide +kernel
  obtain ⟨q, hrun, hq⟩ := Option.map_eq_some_iff.mp hrun
  obtain ⟨hidle, hup⟩ := Prod.mk.inj hq
  exact ⟨q, hrun, delivery_run ⟨limitedRun, hrun⟩ hidle hup 7301⟩

/-- Two deliveries that gather their views before the request is taken out both run it. -/
example : (system.run system.start [.post "/gateway", .timer, .gather 0 1, .gather 1 1,
    .look 0 1 true, .look 1 1 true]).map sent = some [⟨0, "/gateway"⟩, ⟨0, "/gateway"⟩] := by
  decide +kernel

end RequestQueue
