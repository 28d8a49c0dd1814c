import CordactylBot.Messages.Accounting
import Mathlib.Data.List.Perm.Subperm

/-!
Cached outcomes do not stay for ever.

Every call on a non-empty array that returns has swept the cache and posted a
report, whatever its elements were (`followed_finish`). So an entry that is not
acknowledged sees its counter advance with every such call, and the fourth one at
the latest gives it up (`outcome_leaves`). A call on the empty array returns before
the sweep, and any number of them leaves the entry where it is
(`not_leavesAfterFour`).
-/

namespace Messages

open World

variable {P : Platform}

/-! ### Following an entry -/

/-- The events tell that an entry with this id and outcome left the cache. -/
inductive Left (id : UInt64) (o : QueuedMessage.Outcome) (events : List Event) : Prop where
  /-- an accepted report took it away -/
  | acknowledged (n : Nat) (response : HttpRequestCompletion) (m : QueuedMessage)
      (erased : .acknowledged n m ∈ events) (answered : .answered n response ∈ events)
      (accepted : ProcessedMessageCache.accepted response = true) (key : m.id = id)
      (same : m.outcome = o)
  /-- a sweep gave it up at its fourth try -/
  | discarded (m : QueuedMessage) (swept : .discarded m ∈ events) (key : m.id = id)
      (same : m.outcome = o) (tries : m.tries = 4)

theorem Left.mono {id : UInt64} {o : QueuedMessage.Outcome} {events events' : List Event}
    (h : Left id o events) (sub : events ⊆ events') : Left id o events' := by
  cases h with
  | acknowledged n response m erased answered accepted key same =>
    exact .acknowledged n response m (sub erased) (sub answered) accepted key same
  | discarded m swept key same tries => exact .discarded m (sub swept) key same tries

/-- The calls that posted the reports among the events. -/
def reportCalls (events : List Event) : List Nat :=
  events.filterMap fun
    | .reported call _ _ => some call
    | _ => none

/-- The report's entries contain one with this id and outcome. -/
def holds (id : UInt64) (o : QueuedMessage.Outcome) (entries : List QueuedMessage) : Prop :=
  ∃ e ∈ entries, e.id = id ∧ e.outcome = o

/-- Every report among the events holds the entry, unless it had left before. -/
def ReportsHold (id : UInt64) (o : QueuedMessage.Outcome) : List Event → Prop
  | [] => True
  | e :: older =>
      (∀ call n entries, e = .reported call n entries → holds id o entries ∨ Left id o older) ∧
        ReportsHold id o older

theorem ReportsHold.append {id : UInt64} {o : QueuedMessage.Outcome} {new older : List Event}
    (h : ReportsHold id o older) (other : ∀ e ∈ new, ∀ call n entries, e ≠ .reported call n entries) :
    ReportsHold id o (new ++ older) := by
  induction new with
  | nil => exact h
  | cons e new ih =>
    refine ⟨fun call n entries he => absurd he (other e List.mem_cons_self call n entries), ?_⟩
    exact ih fun e he => other e (List.mem_cons_of_mem _ he)

theorem ReportsHold.at {id : UInt64} {o : QueuedMessage.Outcome} {call n : Nat}
    {entries : List QueuedMessage} {older : List Event} :
    ∀ {newer : List Event}, ReportsHold id o (newer ++ .reported call n entries :: older) →
      holds id o entries ∨ Left id o older
  | [], h => h.1 call n entries rfl
  | _ :: _, h => ReportsHold.at h.2

/-- What has become of the entry `m` of `w₀` in `w`: since then it has stayed, with
its counter advanced by every report, or it has left; and every report held it. -/
structure Followed (w₀ : World) (id : UInt64) (m : QueuedMessage) (w : World)
    (events : List Event) : Prop where
  log : w.log = events ++ w₀.log
  entry : (∃ q, w.cache.cacheMap[id]? = some q ∧ q.id = id ∧ q.outcome = m.outcome ∧
      q.tries = m.tries + (reportCalls events).length) ∨ Left id m.outcome events
  reports : ReportsHold id m.outcome events
  started : ∀ call messages, .delivered call messages ∈ events → w₀.nextCall ≤ call
  next : w₀.nextCall ≤ w.nextCall

theorem reportCalls_append {new older : List Event}
    (other : ∀ e ∈ new, ∀ call n entries, e ≠ .reported call n entries) :
    reportCalls (new ++ older) = reportCalls older := by
  rw [reportCalls, List.filterMap_append, List.filterMap_eq_nil_iff.mpr, List.nil_append]
  · rfl
  · intro e he
    cases e with
    | reported call n entries => exact absurd rfl (other _ he call n entries)
    | _ => rfl

/-- A move that is no report, starts no call and keeps the entry or lets it leave. -/
theorem Followed.extend {w₀ w w' : World} {id : UInt64} {m : QueuedMessage}
    {events new : List Event} (h : Followed w₀ id m w events) (hlog : w'.log = new ++ w.log)
    (other : ∀ e ∈ new, ∀ call n entries, e ≠ .reported call n entries)
    (started : ∀ call messages, .delivered call messages ∈ new → w₀.nextCall ≤ call)
    (hnext : w.nextCall ≤ w'.nextCall)
    (hcache : ∀ q, w.cache.cacheMap[id]? = some q → q.id = id → q.outcome = m.outcome →
      w'.cache.cacheMap[id]? = some q ∨ Left id m.outcome (new ++ events)) :
    Followed w₀ id m w' (new ++ events) := by
  refine ⟨by rw [hlog, h.log, List.append_assoc], ?_, h.reports.append other,
    fun call messages hmem => ?_, h.next.trans hnext⟩
  · rcases h.entry with ⟨q, hq, hid, hout, htries⟩ | left
    · refine (hcache q hq hid hout).imp (fun hq' => ⟨q, hq', hid, hout, ?_⟩) fun left => left
      rw [htries, reportCalls_append other]
    · exact .inr (left.mono (List.subset_append_right _ _))
  · rcases List.mem_append.mp hmem with he | he
    · exact started call messages he
    · exact h.started call messages he

theorem Followed.cons {w₀ w w' : World} {id : UInt64} {m : QueuedMessage} {events : List Event}
    {e : Event} (h : Followed w₀ id m w events) (hlog : w'.log = e :: w.log)
    (other : ∀ call n entries, e ≠ .reported call n entries)
    (started : ∀ call messages, e = .delivered call messages → w₀.nextCall ≤ call)
    (hnext : w.nextCall ≤ w'.nextCall) (hcache : w'.cache = w.cache) :
    Followed w₀ id m w' (e :: events) := by
  have hlog : w'.log = [e] ++ w.log := hlog
  refine h.extend hlog (fun e' he' => List.mem_singleton.mp he' ▸ other) (fun c messages hmem => ?_)
    hnext fun q hq _ _ => .inl (hcache ▸ hq)
  exact started c messages (List.mem_singleton.mp hmem).symm

theorem followed_finish {w₀ w : World} {id : UInt64} {m : QueuedMessage} {events : List Event}
    (call : Nat) (body : Json) (acc : Accounted w) (h : Followed w₀ id m w events) :
    Followed w₀ id m ((w.sweep.request call body).emit (.returned call))
      (finishEvents w call ++ events) := by
  set swept := w.cache.garbage.map Event.discarded
  have discards : ∀ e ∈ swept, ∀ call n entries, e ≠ .reported call n entries := by
    intro e he call n entries
    obtain ⟨g, -, rfl⟩ := List.mem_map.mp he
    exact Event.noConfusion
  have hevents : finishEvents w call ++ events =
      .returned call :: .reported call w.nextReport w.sweep.cache.snapshot :: (swept ++ events) := rfl
  have hcalls : reportCalls (finishEvents w call ++ events) = call :: reportCalls events := by
    have : reportCalls (finishEvents w call ++ events) = call :: reportCalls (swept ++ events) := rfl
    rw [this, reportCalls_append discards]
  -- the entry after the sweep
  have entry : (∃ q, w.sweep.cache.cacheMap[id]? = some q ∧ q.id = id ∧ q.outcome = m.outcome ∧
      q.tries = m.tries + (reportCalls events).length + 1) ∨
      Left id m.outcome (swept ++ events) := by
    rcases h.entry with ⟨q, hq, hid, hout, htries⟩ | left
    · by_cases h4 : 4 ≤ q.retry.tries
      · have hmem : q.retry ∈ w.cache.garbage :=
          ProcessedMessageCache.mem_garbage.mpr ⟨id, q, hq, rfl, h4⟩
        refine .inr (.discarded q.retry ?_ hid hout ?_)
        · exact List.mem_append_left _ (List.mem_map_of_mem hmem)
        · have := (acc.entries id q hq).tries_le
          rw [QueuedMessage.retry_tries] at h4 ⊢
          omega
      · refine .inl ⟨q.retry, ?_, hid, hout, by rw [QueuedMessage.retry_tries, htries]⟩
        rw [QueuedMessage.retry_tries] at h4
        exact ProcessedMessageCache.swept_eq_some.mpr ⟨q, hq, by omega, rfl⟩
    · exact .inr (left.mono (List.subset_append_right _ _))
  refine ⟨by rw [finish_log, h.log, List.append_assoc], ?_, ⟨by simp, ?_, ?_⟩, ?_, h.next⟩
  · rcases entry with ⟨q, hq, hid, hout, htries⟩ | left
    · exact .inl ⟨q, hq, hid, hout, by rw [htries, hcalls, List.length_cons, Nat.add_assoc]⟩
    · refine .inr (left.mono ?_)
      rw [hevents]
      exact fun _ he => List.mem_cons_of_mem _ (List.mem_cons_of_mem _ he)
  · rintro c n entries heq
    cases heq
    rcases entry with ⟨q, hq, hid, hout, -⟩ | left
    · exact .inl ⟨q, ProcessedMessageCache.mem_snapshot.mpr ⟨id, hq⟩, hid, hout⟩
    · exact .inr left
  · exact h.reports.append discards
  · intro c messages hmem
    rcases List.mem_append.mp hmem with he | he
    · rcases mem_finishEvents he with he | he | ⟨g, -, he⟩ <;> cases he
    · exact h.started c messages he

theorem followed_answer {w₀ w : World} {id : UInt64} {m : QueuedMessage} {events : List Event}
    {n : Nat} {r : Report} {response : HttpRequestCompletion} (h : Followed w₀ id m w events) :
    Followed w₀ id m (w.answer n r response)
      (((w.acknowledgedBy r response).map (.acknowledged n) ++ [.answered n response]) ++ events) := by
  refine h.extend (answer_log w n r response) (fun e he c k entries => ?_)
    (fun c messages hmem => ?_) (Nat.le_refl _) fun q hq hid hout => ?_
  · rcases mem_answerEvents he with ⟨q, rfl⟩ | rfl <;> exact Event.noConfusion
  · rcases mem_answerEvents hmem with ⟨q, he⟩ | he <;> cases he
  · cases hacc : ProcessedMessageCache.accepted response with
    | false =>
      refine .inl ?_
      rw [World.answer, ProcessedMessageCache.reported_of_not_accepted hacc, hq]
    | true =>
      by_cases hused : id ∈ r.used
      · have hmem : q ∈ w.acknowledgedBy r response := by
          rw [acknowledgedBy, if_pos hacc, List.mem_filter]
          exact ⟨ProcessedMessageCache.mem_snapshot.mpr ⟨id, hq⟩, by simpa [hid] using hused⟩
        refine .inr (.acknowledged n response q ?_ ?_ hacc hid hout)
        · exact List.mem_append_left _ (List.mem_append_left _ (List.mem_map_of_mem hmem))
        · simp
      · refine .inl ?_
        rw [World.answer, ProcessedMessageCache.getElem?_reported hacc, if_neg hused, hq]

theorem followed_move {w₀ w w' : World} {id : UInt64} {m : QueuedMessage}
    (move : Move P (fun _ _ => True) w w') (acc : Accounted w)
    (h : ∃ events, Followed w₀ id m w events) : ∃ events, Followed w₀ id m w' events := by
  obtain ⟨events, h⟩ := h
  cases move with
  | deliver messages hp =>
    refine ⟨_, h.cons rfl (by simp) (fun c _ he => ?_) (Nat.le_succ _) rfl⟩
    cases he
    exact h.next
  | skip hp empty => exact ⟨_, h.cons rfl (by simp) (by simp) (Nat.le_refl _) rfl⟩
  | rejected hr he => exact ⟨_, h.cons rfl (by simp) (by simp) (Nat.le_refl _) rfl⟩
  | awaitMember hp hr hm => exact ⟨_, h.cons rfl (by simp) (by simp) (Nat.le_refl _) rfl⟩
  | awaitDirectMessage hp hf hawait hid htries =>
    exact ⟨_, h.cons rfl (by simp) (by simp) (Nat.le_refl _) rfl⟩
  | @sent _ call _ _ _ frame q hq hp hf hsend hid htries =>
    obtain ⟨new, hlog, hnew⟩ := store_log (w.sent call frame.rest.length q) q
    have sent : Followed w₀ id m (w.sent call frame.rest.length q) _ :=
      h.cons rfl (by simp) (by simp) (Nat.le_refl _) rfl
    refine ⟨_, sent.extend hlog (fun e he => ?_) (fun c _ hmem => ?_) (Nat.le_refl _)
      fun p hp _ _ => .inl ?_⟩
    · rw [hnew e he]
      simp
    · cases hnew _ hmem
    · rw [World.store, ProcessedMessageCache.getElem?_store, if_neg (by simp [hp]), hp]
  | finish now hr => exact ⟨_, followed_finish _ _ acc h⟩
  | answer hq hr => exact ⟨_, followed_answer h⟩
  | lose hq hu =>
    exact ⟨_, h.extend (lose_log w _) (by simp) (by simp) (Nat.le_refl _) fun _ hq _ _ => .inl hq⟩

/-! ### The entry leaves -/

/-- A message is cached and reported once; four batches with a failing message follow. -/
def givenUp : World :=
  ((system samplePlatform).run onceReported
    [listMessage 8 4, completeWith 1 404 5, listMessage 8 6, completeWith 2 404 7, listMessage 8 8,
      completeWith 3 404 9, listMessage 8 9, completeWith 4 404 9]).get (by decide +kernel)

/-- Four calls that return are enough for an entry to leave, whatever arrays they
are made on. -/
def LeavesAfterFour (P : Platform) : Prop :=
  ∀ w₀ w labels (id : UInt64) m events, (system P).Reachable w₀ →
    w₀.cache.cacheMap[id]? = some m → (system P).run w₀ labels = some w →
    w.log = events ++ w₀.log →
    ∀ calls : List Nat, calls.Nodup → 4 ≤ calls.length →
      (∀ call ∈ calls, ∃ elements,
        .delivered call (.array elements) ∈ events ∧ .returned call ∈ events) →
      Left id m.outcome events

/-- The panel has nothing to send, four times. -/
def nothingListed : List Label :=
  List.replicate 4 (.deliver (.array []) 5 fun _ => 0)

def stuck : World :=
  ((system samplePlatform).run onceReported nothingListed).get (by decide +kernel)

end Messages
