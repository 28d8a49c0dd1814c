import CordactylBot.Messages.Accounting

/-!
What becomes of the outcome of a send.

The outcome of the last completed send of an id should be traceable (`Traced`):
cached under the id, or in the body of a report the API accepted, or given up by
a sweep. Two steps can break this. A send that completes while its id is still
cached is dropped, because `emplace` ignores a key that is there; and the answer
of an old report erases whatever is cached under its ids by then, though its body
never held it. `KeepsOutcomes` rules out exactly these two.

* `outcome_kept` — in every run whose steps keep outcomes, the outcome of every
  last completed send is traceable.
* `outcome_dropped`, `outcome_erased` — runs where it is not: a redelivered message
  succeeds while its first failure is still cached, or is acknowledged by the late
  answer of a report about that failure.
-/

namespace Messages

open World EventLog

variable {P : Platform}

/-! ### Tracing an outcome -/

/-- The message of a completed send for `id`. -/
def sentAs (id : UInt64) : Event → Option QueuedMessage
  | .sent _ _ m => if m.id = id then some m else none
  | _ => none

/-- The events since the last completed send for `id`. -/
def sinceSent (w : World) (id : UInt64) : List Event :=
  since (fun e => (sentAs id e).isSome) w.log

/-- Where the outcome of the last completed send for `id` is to be found. -/
inductive Traced (w : World) (id : UInt64) (o : QueuedMessage.Outcome) : Prop where
  /-- it waits in the cache -/
  | cached (m : QueuedMessage) (held : w.cache.cacheMap[id]? = some m) (same : m.outcome = o)
  /-- a report containing it was accepted -/
  | reported (n call : Nat) (response : HttpRequestCompletion) (entries : List QueuedMessage)
      (m : QueuedMessage) (answered : .answered n response ∈ sinceSent w id)
      (accepted : ProcessedMessageCache.accepted response = true)
      (report : .reported call n entries ∈ w.log) (contained : m ∈ entries) (key : m.id = id)
      (same : m.outcome = o)
  /-- a sweep gave it up -/
  | discarded (m : QueuedMessage) (swept : .discarded m ∈ sinceSent w id) (key : m.id = id)
      (same : m.outcome = o) (tries : m.tries = 4)

/-- The outcome of every last completed send can be traced. -/
def OutcomesTraced (w : World) : Prop :=
  ∀ id m, latest (sentAs id) w.log = some m → Traced w id m.outcome

theorem sinceSent_extend {w w' : World} {id : UInt64} {new : List Event}
    (hlog : w'.log = new ++ w.log) (quiet : ∀ e ∈ new, sentAs id e = none) :
    sinceSent w' id = new ++ sinceSent w id := by
  rw [sinceSent, hlog, since_append fun e he => by rw [quiet e he]; rfl]
  rfl

theorem Traced.extend {w w' : World} {id : UInt64} {o : QueuedMessage.Outcome} {new : List Event}
    (h : Traced w id o) (hlog : w'.log = new ++ w.log) (quiet : ∀ e ∈ new, sentAs id e = none)
    (hcache : ∀ m, w.cache.cacheMap[id]? = some m → m.outcome = o → Traced w' id o) :
    Traced w' id o := by
  have hsince := sinceSent_extend hlog quiet
  cases h with
  | cached m held same => exact hcache m held same
  | reported n call response entries m answered accepted report contained key same =>
    exact .reported n call response entries m (hsince ▸ List.mem_append_right _ answered) accepted
      (hlog ▸ List.mem_append_right _ report) contained key same
  | discarded m swept key same tries =>
    exact .discarded m (hsince ▸ List.mem_append_right _ swept) key same tries

/-- A move without a completed send keeps what it does with the cached outcomes. -/
theorem OutcomesTraced.extend {w w' : World} {new : List Event} (h : OutcomesTraced w)
    (hlog : w'.log = new ++ w.log) (quiet : ∀ e ∈ new, ∀ id, sentAs id e = none)
    (hcache : ∀ (id : UInt64) m, w.cache.cacheMap[id]? = some m → Traced w' id m.outcome) :
    OutcomesTraced w' := by
  intro id m hm
  rw [hlog, latest_append fun e he => quiet e he id] at hm
  exact (h id m hm).extend hlog (fun e he => quiet e he id) fun q hq same => same ▸ hcache id q hq

/-- One event that is no completed send, and an untouched cache. -/
theorem OutcomesTraced.cons {w w' : World} {e : Event} (h : OutcomesTraced w)
    (hlog : w'.log = e :: w.log) (quiet : ∀ id, sentAs id e = none) (hcache : w'.cache = w.cache) :
    OutcomesTraced w' := by
  have hlog : w'.log = [e] ++ w.log := hlog
  refine h.extend hlog (fun e' he' => List.mem_singleton.mp he' ▸ quiet) fun id m hm => ?_
  exact .cached m (hcache ▸ hm) rfl

/-! ### The two steps that lose outcomes -/

/-- The completion ends the send of the frame's message. -/
def completesSend (P : Platform) (frame : Frame) (result : Answer) : Bool :=
  frame.awaiting.reads P result &&
    (frame.awaiting = .directMessage || P.isError (P.httpInfo result))

theorem completesSend_of_returned {now : Int} {frame : Frame} {result : Answer}
    {m : QueuedMessage} (read : frame.awaiting.reads P result = true)
    (h : frame.message.sendToDiscord P now frame.awaiting (P.httpInfo result) = .returned m) :
    completesSend P frame result = true := by
  rw [completesSend, read, Bool.true_and]
  cases hawait : frame.awaiting with
  | directMessage => simp
  | memberLookup =>
    rw [hawait, QueuedMessage.sendToDiscord] at h
    split at h
    · rename_i herror
      simp [herror]
    · cases h

/-- The condition on a step. A send completes only for an id that is not cached,
and an accepted report held every outcome that is cached under its ids by then. -/
def KeepsOutcomes (P : Platform) (w : World) : Label → Prop
  | .deliver _ _ _ => True
  | .complete call result _ _ =>
      ∀ frame ∈ w.waiting call, completesSend P frame result = true →
        w.cache.cacheMap[frame.message.id]? = none
  | .created _ _ => True
  | .answer n response =>
      ProcessedMessageCache.accepted response = true → ∀ r ∈ w.reports[n]?, ∀ id ∈ r.used,
        ∀ m ∈ w.cache.cacheMap[id]?, ∃ e ∈ r.entries, e.id = id ∧ e.outcome = m.outcome

instance (w : World) : ∀ l, Decidable (KeepsOutcomes P w l)
  | .deliver _ _ _ => inferInstanceAs (Decidable True)
  | .complete call result _ _ =>
      inferInstanceAs (Decidable (∀ frame ∈ w.waiting call, completesSend P frame result = true →
        w.cache.cacheMap[frame.message.id]? = none))
  | .created _ _ => inferInstanceAs (Decidable True)
  | .answer n response =>
      -- by running through the list: `UInt64` is a finite type too
      have (r : Report) : Decidable (∀ id ∈ r.used, ∀ m ∈ w.cache.cacheMap[id]?,
          ∃ e ∈ r.entries, e.id = id ∧ e.outcome = m.outcome) := List.decidableBAll _ _
      inferInstanceAs (Decidable (ProcessedMessageCache.accepted response = true →
        ∀ r ∈ w.reports[n]?, ∀ id ∈ r.used, ∀ m ∈ w.cache.cacheMap[id]?,
          ∃ e ∈ r.entries, e.id = id ∧ e.outcome = m.outcome))

/-- A send that completes for an id that is not cached is cached. -/
theorem tracedOutcomes_sent {w : World} {call position : Nat} {m : QueuedMessage}
    (free : w.cache.cacheMap[m.id]? = none) (h : OutcomesTraced w) :
    OutcomesTraced ((w.sent call position m).store m) := by
  have hlog : ((w.sent call position m).store m).log =
      [.stored m] ++ .sent call position m :: w.log := by
    simp [World.store, World.sent, free]
  have hfind : ∀ id : UInt64, ((w.sent call position m).store m).cache.cacheMap[id]? =
      if id = m.id ∧ w.cache.cacheMap[id]? = none then some m else w.cache.cacheMap[id]? :=
    ProcessedMessageCache.getElem?_store w.cache m
  have quiet : ∀ id, ∀ e ∈ [Event.stored m], sentAs id e = none := by
    intro id e he
    rw [List.mem_singleton.mp he]
    rfl
  intro id q hq
  by_cases hid : m.id = id
  · subst hid
    have here : sentAs m.id (.sent call position m) = some m := by simp [sentAs]
    rw [hlog, latest_append (quiet m.id), latest_cons_of_some here] at hq
    cases hq
    exact .cached m (by rw [hfind, if_pos ⟨rfl, free⟩]) rfl
  · have other : sentAs id (.sent call position m) = none := by simp [sentAs, hid]
    have hlog' : ((w.sent call position m).store m).log =
        [.stored m, .sent call position m] ++ w.log := hlog
    have quiet' : ∀ e ∈ [Event.stored m, .sent call position m], sentAs id e = none := by
      intro e he
      rcases List.mem_cons.mp he with rfl | he
      · rfl
      · rw [List.mem_singleton.mp he, other]
    rw [hlog', latest_append quiet'] at hq
    refine (h id q hq).extend hlog' quiet' fun p hp same => .cached p ?_ same
    rw [hfind, if_neg fun hand => hid hand.1.symm, hp]

/-- The sweep at the end of a batch keeps a cached outcome or gives it up. -/
theorem tracedOutcomes_finish {w : World} {call : Nat} (body : Json) (acc : Accounted w)
    (h : OutcomesTraced w) :
    OutcomesTraced ((w.sweep.request call body).emit (.returned call)) := by
  have quiet : ∀ e ∈ finishEvents w call, ∀ id, sentAs id e = none := by
    intro e he id
    rcases mem_finishEvents he with rfl | rfl | ⟨m, -, rfl⟩ <;> rfl
  refine h.extend (finish_log w call body) quiet fun id m hm => ?_
  have entry := acc.entries id m hm
  by_cases h4 : 4 ≤ m.retry.tries
  · have swept : Event.discarded m.retry ∈ finishEvents w call := by
      have : m.retry ∈ w.cache.garbage :=
        ProcessedMessageCache.mem_garbage.mpr ⟨id, m, hm, rfl, h4⟩
      simp [finishEvents, this]
    refine .discarded m.retry ?_ entry.key rfl ?_
    · rw [sinceSent_extend (finish_log w call body) fun e he => quiet e he id]
      exact List.mem_append_left _ swept
    · have := entry.tries_le
      rw [QueuedMessage.retry_tries] at h4 ⊢
      omega
  · refine .cached m.retry ?_ rfl
    rw [QueuedMessage.retry_tries] at h4
    exact ProcessedMessageCache.swept_eq_some.mpr ⟨m, hm, by omega, rfl⟩

/-- The answer of a report that held what it erases keeps every outcome traced. -/
theorem tracedOutcomes_answer {w : World} {n : Nat} {r : Report} {response : HttpRequestCompletion}
    (hr : w.reports[n]? = some r) (hq : KeepsOutcomes P w (.answer n response))
    (recorded : ReportsRecorded P w) (h : OutcomesTraced w) :
    OutcomesTraced (w.answer n r response) := by
  have quiet : ∀ e ∈ (w.acknowledgedBy r response).map (.acknowledged n) ++ [.answered n response],
      ∀ id, sentAs id e = none := by
    intro e he id
    rcases mem_answerEvents he with ⟨m, rfl⟩ | rfl <;> rfl
  refine h.extend (answer_log w n r response) quiet fun id m hm => ?_
  cases hacc : ProcessedMessageCache.accepted response with
  | false =>
    refine .cached m ?_ rfl
    rw [World.answer, ProcessedMessageCache.reported_of_not_accepted hacc, hm]
  | true =>
    by_cases hused : id ∈ r.used
    · obtain ⟨e, hmem, hid, same⟩ := hq hacc r hr id hused m hm
      refine .reported n r.call response r.entries e ?_ hacc ?_ hmem hid same
      · rw [sinceSent_extend (answer_log w n r response) fun e he => quiet e he id]
        simp
      · rw [answer_log]
        exact List.mem_append_right _ (recorded.outstanding n r hr).1
    · refine .cached m ?_ rfl
      rw [World.answer, ProcessedMessageCache.getElem?_reported hacc, if_neg hused, hm]

/-- Under accounts and records, every move of a step that keeps outcomes keeps
them traced. -/
theorem outcomesTraced_move {w w' : World} (move : Move P (KeepsOutcomes P) w w')
    (acc : Accounted w) (recorded : ReportsRecorded P w) (h : OutcomesTraced w) :
    OutcomesTraced w' := by
  cases move with
  | deliver messages hp => exact h.cons rfl (fun _ => rfl) rfl
  | skip hp empty => exact h.cons rfl (fun _ => rfl) rfl
  | rejected hr he => exact h.cons rfl (fun _ => rfl) rfl
  | awaitMember hp hr hm => exact h.cons rfl (fun _ => rfl) rfl
  | awaitDirectMessage hp hf hawait hid htries => exact h.cons rfl (fun _ => rfl) rfl
  | @sent _ call result now storage frame m hq hp hf hsend hid htries =>
    refine tracedOutcomes_sent ?_ h
    rw [hid]
    exact hq frame (waiting_eq_some.mpr ⟨hf.waits, hf.suspended⟩)
      (completesSend_of_returned hf.read hsend)
  | finish now hr => exact tracedOutcomes_finish _ acc h
  | answer hq hr => exact tracedOutcomes_answer hr hq recorded h
  | lose hq hu =>
    exact h.extend (lose_log _ _) (by simp) fun id m hm => .cached m hm rfl

/-- **No outcome is lost in a run whose steps keep outcomes.** The outcome of the
last completed send of every id is in the cache, or in the body of a report
accepted since, or was given up since by a sweep at its fourth try. The body of a
report on record lists its entries. -/
theorem outcome_kept (P : Platform) {labels : List Label} {w : World}
    (keeps : (system P).Along (fun w l _ => KeepsOutcomes P w l) (system P).start labels)
    (hrun : (system P).run (system P).start labels = some w) :
    OutcomesTraced w ∧ ReportsRecorded P w := by
  have background : MoveClosed P (fun _ _ => True) fun w => Accounted w ∧ ReportsRecorded P w :=
    fun _ _ move h => ⟨accounted_closed move h.1, reportsRecorded_closed move h.2⟩
  have closed := background.under (Q := KeepsOutcomes P) (I := OutcomesTraced)
    fun _ _ move h traced => outcomesTraced_move move h.1 h.2 traced
  have start : (Accounted (system P).start ∧ ReportsRecorded P (system P).start) ∧
      OutcomesTraced (system P).start := by
    have reachable : (system P).Reachable (system P).start := ⟨[], rfl⟩
    exact ⟨⟨accounted reachable, reports_recorded reachable⟩, fun _ _ h => by cases h⟩
  have kept := closed.along start keeps hrun
  exact ⟨kept.2, kept.1.2⟩

/-- A message is sent, reported and acknowledged. -/
def acceptedRun : List Label :=
  [listMessage 7 1, completeWith 0 200 2, completeWith 0 200 3, .answer 0 { status := 200 }]

theorem outcome_kept_acceptedRun :
    OutcomesTraced (((system samplePlatform).run {} acceptedRun).get (by decide +kernel)) :=
  (@outcome_kept samplePlatform acceptedRun _ (by decide +kernel) (Option.some_get _).symm).1

def redelivered : World :=
  ((system samplePlatform).run {}
    [listMessage 7 1, completeWith 0 404 2, .answer 0 { status := 500 }, listMessage 7 3,
      completeWith 1 200 4, completeWith 1 200 5]).get (by decide +kernel)

def staleAnswered : World :=
  ((system samplePlatform).run {}
    [listMessage 7 1, completeWith 0 404 2, listMessage 8 3, completeWith 1 404 4,
      .answer 0 { status := 200 }, listMessage 7 5, completeWith 2 200 6, completeWith 2 200 7,
      .answer 1 { status := 200 }, .answer 2 { status := 500 }]).get (by decide +kernel)

/-- Report `n` is on record with an entry satisfying `p`. -/
def reportHas (log : List Event) (n : Nat) (p : QueuedMessage → Bool) : Bool :=
  log.any fun
    | .reported _ k entries => k = n && entries.any p
    | _ => false

/-- Looks for the outcome in the places where it can be traced. -/
def traceable (w : World) (id : UInt64) (o : QueuedMessage.Outcome) : Bool :=
  w.cache.cacheMap[id]?.map QueuedMessage.outcome = some o ||
    (sinceSent w id).any fun
      | .answered n response =>
          ProcessedMessageCache.accepted response &&
            reportHas w.log n fun m => m.id = id ∧ m.outcome = o
      | .discarded m => m.id = id && m.outcome = o
      | _ => false

theorem Traced.traceable {w : World} {id : UInt64} {o : QueuedMessage.Outcome}
    (h : Traced w id o) : traceable w id o = true := by
  simp only [Messages.traceable, Bool.or_eq_true, decide_eq_true_eq, List.any_eq_true]
  cases h with
  | cached m held same => exact .inl (by rw [held, Option.map_some, same])
  | reported n call response entries m answered accepted report contained key same =>
    refine .inr ⟨_, answered, ?_⟩
    simp only [reportHas, Bool.and_eq_true, List.any_eq_true]
    exact ⟨accepted, _, report, by simpa using ⟨m, contained, key, same⟩⟩
  | discarded m swept key same tries => exact .inr ⟨_, swept, by simp [key, same]⟩

/-- **An outcome is lost.** The first try of a message fails and its report is
refused. The message is listed again and delivered: the success is dropped,
because the failure is still cached. -/
theorem outcome_dropped : ∃ w, (system samplePlatform).Reachable w ∧ ¬ OutcomesTraced w := by
  refine ⟨redelivered, ⟨_, (Option.some_get _).symm⟩, fun traced => ?_⟩
  have last : latest (sentAs 7) redelivered.log =
      some { id := 7, guildId := 5, recipient := 9, embed := {}, processedAt := 4 } := by
    decide +kernel
  exact absurd (traced 7 _ last).traceable (by decide +kernel)

/-- **An outcome is lost the other way.** A report about the failure is answered
late, when the success of the redelivery is cached under the same id. -/
theorem outcome_erased : ∃ w, (system samplePlatform).Reachable w ∧ ¬ OutcomesTraced w ∧
    w.cache.cacheMap[(7 : UInt64)]? = none := by
  refine ⟨staleAnswered, ⟨_, (Option.some_get _).symm⟩, fun traced => ?_, by decide +kernel⟩
  have last : latest (sentAs 7) staleAnswered.log =
      some { id := 7, guildId := 5, recipient := 9, embed := {}, processedAt := 6 } := by
    decide +kernel
  exact absurd (traced 7 _ last).traceable (by decide +kernel)

end Messages
