import CordactylBot.Messages.Calls

/-!
Retry accounting of the report-back cache.

`tries` is advanced by every sweep, whichever batch it belongs to, and a sweep is
always followed by a report over what it left, with no suspension point between
them. So the counter of an entry is the number of reports issued about it since
it was inserted (`EntryAccounted`), and the fourth sweep over an entry, which
erases it, comes after exactly three reports. What the log calls a report is what was
posted (`ReportsRecorded`).

* `reports_recorded` — an outstanding report is on record, with the body posted.
* `accounted` — the invariant, in every reachable world.
* `retry_accounting` — the invariant together with the only two ways an entry
  can leave the cache in a step.
-/

namespace Messages

open World EventLog

variable {P : Platform}

/-! ### Reports on record -/

/-- A report whose answer is outstanding is on record, and its body lists its entries. -/
def ReportRecorded (P : Platform) (w : World) (n : Nat) (r : Report) : Prop :=
  .reported r.call n r.entries ∈ w.log ∧
    ∃ now, r.body =
      .object [("messages", .array (r.entries.map (ProcessedMessageCache.entryJson P now)))]

/-- An outstanding report is on record, and a report on record is outstanding until it is
answered. -/
structure ReportsRecorded (P : Platform) (w : World) : Prop where
  outstanding : ∀ (n : Nat) r, w.reports[n]? = some r → ReportRecorded P w n r
  posted : ∀ call n entries, .reported call n entries ∈ w.log →
    (∃ r, w.reports[n]? = some r ∧ r.call = call ∧ r.entries = entries) ∨
      ∃ response, .answered n response ∈ w.log
  bound : ∀ call n entries, .reported call n entries ∈ w.log → n < w.nextReport

/-- A move that posts no report. -/
theorem ReportsRecorded.extend {w w' : World} {new : List Event} (h : ReportsRecorded P w)
    (hlog : w'.log = new ++ w.log) (other : ∀ e ∈ new, ∀ call n entries, e ≠ .reported call n entries)
    (hnext : w'.nextReport = w.nextReport)
    (hreports : ∀ (n : Nat) r, w'.reports[n]? = some r → w.reports[n]? = some r)
    (kept : ∀ (n : Nat) r, w.reports[n]? = some r →
      w'.reports[n]? = some r ∨ ∃ response, .answered n response ∈ w'.log) :
    ReportsRecorded P w' := by
  have old : ∀ {call n entries}, .reported call n entries ∈ w'.log →
      .reported call n entries ∈ w.log := by
    intro call n entries hmem
    rcases List.mem_append.mp (hlog ▸ hmem) with he | he
    · exact absurd rfl (other _ he call n entries)
    · exact he
  refine ⟨fun n r hr => ?_, fun call n entries hmem => ?_, fun call n entries hmem => ?_⟩
  · obtain ⟨hrec, hbody⟩ := h.outstanding n r (hreports n r hr)
    exact ⟨hlog ▸ List.mem_append_right _ hrec, hbody⟩
  · rcases h.posted call n entries (old hmem) with ⟨r, hr, hcall⟩ | ⟨response, hans⟩
    · exact (kept n r hr).imp_left fun hr' => ⟨r, hr', hcall⟩
    · exact .inr ⟨response, hlog ▸ List.mem_append_right _ hans⟩
  · exact hnext ▸ h.bound call n entries (old hmem)

theorem ReportsRecorded.cons {w w' : World} {e : Event} (h : ReportsRecorded P w)
    (hlog : w'.log = e :: w.log) (other : ∀ call n entries, e ≠ .reported call n entries)
    (hnext : w'.nextReport = w.nextReport) (hreports : w'.reports = w.reports) :
    ReportsRecorded P w' := by
  have hlog : w'.log = [e] ++ w.log := hlog
  refine h.extend hlog (fun e' he' => List.mem_singleton.mp he' ▸ other) hnext
    (fun n r hr => hreports ▸ hr) fun n r hr => .inl ?_
  rw [hreports]
  exact hr

theorem reportsRecorded_finish {w : World} (call : Nat) (now : Int) (h : ReportsRecorded P w) :
    ReportsRecorded P ((w.sweep.request call (.object [("messages",
      .array (w.sweep.cache.snapshot.map (ProcessedMessageCache.entryJson P now)))])).emit
        (.returned call)) := by
  set body := Json.object _
  have hfind : ∀ n : Nat, ((w.sweep.request call body).emit (.returned call)).reports[n]? =
      if w.nextReport = n then
        some ⟨call, w.sweep.cache.usedQueuedMessages, w.sweep.cache.snapshot, body⟩
      else w.reports[n]? := by
    intro n
    simp only [World.emit, World.request, World.sweep, Std.ExtTreeMap.getElem?_insert,
      Std.LawfulEqCmp.compare_eq_iff_eq]
  have old : ∀ {e}, e ∈ w.log → e ∈ ((w.sweep.request call body).emit (.returned call)).log :=
    fun he => finish_log w call body ▸ List.mem_append_right _ he
  have split : ∀ {c n entries},
      .reported c n entries ∈ ((w.sweep.request call body).emit (.returned call)).log →
      (c = call ∧ n = w.nextReport ∧ entries = w.sweep.cache.snapshot) ∨
        .reported c n entries ∈ w.log := by
    intro c n entries hmem
    rw [finish_log] at hmem
    rcases List.mem_append.mp hmem with he | he
    · rcases mem_finishEvents he with he | he | ⟨m, -, he⟩
      · cases he
      · cases he
        exact .inl ⟨rfl, rfl, rfl⟩
      · cases he
    · exact .inr he
  refine ⟨fun n r hr => ?_, fun c n entries hmem => ?_, fun c n entries hmem => ?_⟩
  · rw [hfind] at hr
    split at hr
    · rename_i heq
      subst heq
      cases hr
      exact ⟨List.mem_cons_of_mem _ List.mem_cons_self, now, rfl⟩
    · obtain ⟨hrec, hbody⟩ := h.outstanding n r hr
      exact ⟨old hrec, hbody⟩
  · rcases split hmem with ⟨rfl, rfl, rfl⟩ | he
    · exact .inl ⟨_, by rw [hfind, if_pos rfl], rfl, rfl⟩
    · rcases h.posted c n entries he with ⟨r, hr, hcall⟩ | ⟨response, hans⟩
      · refine .inl ⟨r, ?_, hcall⟩
        rw [hfind, if_neg (Nat.ne_of_gt (h.bound c n entries he))]
        exact hr
      · exact .inr ⟨response, old hans⟩
  · rcases split hmem with ⟨-, rfl, -⟩ | he
    · exact Nat.lt_succ_self _
    · exact Nat.lt_succ_of_lt (h.bound c n entries he)

theorem reportsRecorded_closed : MoveClosed P (fun _ _ => True) (ReportsRecorded P) := by
  intro w w' move h
  cases move with
  | deliver messages hp => exact h.cons rfl (by simp) rfl rfl
  | skip hp empty => exact h.cons rfl (by simp) rfl rfl
  | rejected hr he => exact h.cons rfl (by simp) rfl rfl
  | awaitMember hp hr hm => exact h.cons rfl (by simp) rfl rfl
  | awaitDirectMessage hp hf hawait hid htries => exact h.cons rfl (by simp) rfl rfl
  | @sent _ call _ _ _ frame m hq hp hf hsend hid htries =>
    obtain ⟨new, hlog, hnew⟩ := store_log (w.sent call frame.rest.length m) m
    have sent : ReportsRecorded P (w.sent call frame.rest.length m) := h.cons rfl (by simp) rfl rfl
    exact sent.extend hlog (fun e he => hnew e he ▸ by simp) rfl (fun _ _ hr => hr)
      fun _ _ hr => .inl hr
  | finish now hr => exact reportsRecorded_finish _ now h
  | @answer _ n r response hq hr =>
    refine h.extend (answer_log _ _ _ _) (fun e he => ?_) rfl (fun k q hk => ?_) fun k q hk => ?_
    · rcases mem_answerEvents he with ⟨m, rfl⟩ | rfl <;> simp
    · rw [World.answer, Std.ExtTreeMap.getElem?_erase] at hk
      split at hk
      · cases hk
      · exact hk
    · by_cases hn : n = k
      · subst hn
        exact .inr ⟨response, by simp [World.answer]⟩
      · refine .inl ?_
        rw [World.answer, Std.ExtTreeMap.getElem?_erase, if_neg (by simpa using hn)]
        exact hk
  | lose hq hu =>
    exact h.extend (lose_log _ _) (by simp) rfl (fun _ _ hr => hr) fun _ _ hr => .inl hr

/-- **What the log calls a report was posted.** -/
theorem reports_recorded {w : World} (hw : (system P).Reachable w) : ReportsRecorded P w := by
  refine reportsRecorded_closed.reachable ⟨fun n r h => ?_, fun call n entries h => ?_,
    fun call n entries h => ?_⟩ hw
  · simp [system] at h
  · cases h
  · cases h

/-! ### What the log says about an entry -/

/-- The message a `stored` event inserted under `id`. -/
def storedAs (id : UInt64) : Event → Option QueuedMessage
  | .stored m => if m.id = id then some m else none
  | _ => none

/-- The event is a report whose body contains an entry with this id and outcome. -/
def reportsEntry (id : UInt64) (o : QueuedMessage.Outcome) : Event → Bool
  | .reported _ _ entries => entries.any fun m => m.id = id ∧ m.outcome = o
  | _ => false

/-- The reports issued about an entry since it was last inserted. -/
def reportsSince (w : World) (m : QueuedMessage) : Nat :=
  (since (fun e => (storedAs m.id e).isSome) w.log).countP (reportsEntry m.id m.outcome)

/-- An entry is what was last inserted under its key, except for a counter of at
most 3 that equals the number of reports issued about it since. -/
structure EntryAccounted (w : World) (id : UInt64) (m : QueuedMessage) : Prop where
  key : m.id = id
  inserted : ∃ m₀, latest (storedAs id) w.log = some m₀ ∧ m₀.tries = 0 ∧
    m = { m₀ with tries := m.tries }
  tries_le : m.tries ≤ 3
  tries_eq : m.tries = reportsSince w m

/-- The invariant: messages still being sent have had no try, and every entry of
the cache is accounted for. -/
structure Accounted (w : World) : Prop where
  frames : ∀ (call : Nat) frame, w.calls[call]? = some frame → frame.message.tries = 0
  entries : ∀ (id : UInt64) m, w.cache.cacheMap[id]? = some m → EntryAccounted w id m

/-- Neither an insertion under `id` nor a report. -/
def quietFor (id : UInt64) (e : Event) : Prop :=
  storedAs id e = none ∧ ∀ call n entries, e ≠ .reported call n entries

theorem EntryAccounted.extend {w w' : World} {id : UInt64} {m : QueuedMessage} {new : List Event}
    (h : EntryAccounted w id m) (hlog : w'.log = new ++ w.log) (quiet : ∀ e ∈ new, quietFor id e) :
    EntryAccounted w' id m := by
  obtain ⟨rfl, ⟨m₀, hlatest, hrest⟩, hle, heq⟩ := h
  refine ⟨rfl, ⟨m₀, ?_, hrest⟩, hle, ?_⟩
  · rw [hlog, latest_append (fun e he => (quiet e he).1), hlatest]
  · have none : new.countP (reportsEntry m.id m.outcome) = 0 := by
      refine List.countP_eq_zero.mpr fun e he => ?_
      cases e with
      | reported call n entries => exact absurd rfl ((quiet _ he).2 call n entries)
      | _ => exact Bool.false_ne_true
    rw [reportsSince, hlog, since_append (fun e he => by rw [(quiet e he).1]; rfl),
      List.countP_append, none, Nat.zero_add]
    exact heq

/-- One quiet event. -/
theorem EntryAccounted.cons {w w' : World} {id : UInt64} {m : QueuedMessage} {e : Event}
    (h : EntryAccounted w id m) (hlog : w'.log = e :: w.log) (quiet : quietFor id e) :
    EntryAccounted w' id m := by
  have hlog : w'.log = [e] ++ w.log := hlog
  exact h.extend hlog fun _ he => List.mem_singleton.mp he ▸ quiet

/-! ### The moves keep the accounts -/

theorem accounted_emit {w : World} {e : Event} (h : Accounted w) (quiet : ∀ id, quietFor id e) :
    Accounted (w.emit e) :=
  ⟨h.frames, fun id _ hm => (h.entries id _ hm).cons rfl (quiet id)⟩

theorem accounted_store {w : World} {m : QueuedMessage} (fresh : m.tries = 0) (h : Accounted w) :
    Accounted (w.store m) := by
  refine ⟨h.frames, fun id q hq => ?_⟩
  rw [store, ProcessedMessageCache.getElem?_store] at hq
  cases hold : w.cache.cacheMap[m.id]? with
  | some old =>
    -- the key is there: neither the cache nor the log changes
    have hq' : w.cache.cacheMap[id]? = some q := by
      split at hq
      · rename_i hcond
        rw [hcond.1, hold] at hcond
        cases hcond.2
      · exact hq
    have hlog : (w.store m).log = [] ++ w.log := by simp [store, hold]
    exact (h.entries id q hq').extend hlog (by simp)
  | none =>
    have hlog : (w.store m).log = .stored m :: w.log := by simp [store, hold]
    split at hq
    · rename_i hcond
      obtain rfl := hcond.1
      cases hq
      have here : storedAs m.id (.stored m) = some m := by simp [storedAs]
      refine ⟨rfl, ⟨m, ?_, fresh, rfl⟩, by omega, ?_⟩
      · rw [hlog, latest_cons_of_some here]
      · rw [reportsSince, hlog, since_cons_of_pos (by rw [here]; rfl)]
        exact fresh
    · rename_i hcond
      have ne : m.id ≠ id := by
        rintro rfl
        exact hcond ⟨rfl, hold⟩
      exact (h.entries id q hq).cons hlog ⟨by simp [storedAs, ne], by simp⟩

/-- Sweep, snapshot and report advance the counter of what is left and its
account together. -/
theorem accounted_report {w : World} (call : Nat) (body : Json) (h : Accounted w) :
    Accounted (w.sweep.request call body) := by
  refine ⟨h.frames, fun id q hq => ?_⟩
  have hcached : w.sweep.cache.cacheMap[id]? = some q := hq
  obtain ⟨m, hm, htries, rfl⟩ := ProcessedMessageCache.swept_eq_some.mp hcached
  obtain ⟨rfl, ⟨m₀, hlatest, hzero, heq⟩, -, hcount⟩ := h.entries id m hm
  have quiet : ∀ e ∈ w.cache.garbage.map Event.discarded, storedAs m.id e = none := by
    intro e he
    obtain ⟨g, -, rfl⟩ := List.mem_map.mp he
    rfl
  have reported : reportsEntry m.id m.outcome
      (.reported call w.sweep.nextReport w.sweep.cache.snapshot) = true := by
    refine List.any_eq_true.mpr ⟨m.retry, ?_, by simp⟩
    exact ProcessedMessageCache.mem_snapshot.mpr ⟨m.id, hcached⟩
  refine ⟨rfl, ⟨m₀, ?_, hzero, ?_⟩, ?_, ?_⟩
  · rw [request, latest_cons_of_none rfl, sweep, latest_append quiet, hlatest]
  · rw [heq]
    rfl
  · rw [QueuedMessage.retry_tries]
    omega
  · have discards : (w.cache.garbage.map Event.discarded).countP
        (reportsEntry m.id m.outcome) = 0 := by
      refine List.countP_eq_zero.mpr fun e he => ?_
      obtain ⟨g, -, rfl⟩ := List.mem_map.mp he
      exact Bool.false_ne_true
    rw [QueuedMessage.retry_tries, reportsSince, request, QueuedMessage.retry_id,
      QueuedMessage.retry_outcome, since_cons_of_neg rfl, List.countP_cons_of_pos reported,
      sweep, since_append (fun e he => by rw [quiet e he]; rfl), List.countP_append, discards,
      Nat.zero_add]
    exact congrArg (· + 1) hcount

theorem accounted_answer {w : World} {n : Nat} {r : Report} {response : HttpRequestCompletion}
    (h : Accounted w) : Accounted (w.answer n r response) := by
  refine ⟨h.frames, fun id q hq => ?_⟩
  have kept : w.cache.cacheMap[id]? = some q := by
    change (w.cache.reported r.used response).cacheMap[id]? = some q at hq
    cases hacc : ProcessedMessageCache.accepted response with
    | false => rwa [ProcessedMessageCache.reported_of_not_accepted hacc] at hq
    | true =>
      rw [ProcessedMessageCache.getElem?_reported hacc] at hq
      split at hq
      · cases hq
      · exact hq
  refine (h.entries id q kept).extend (answer_log w n r response) fun e he => ?_
  rcases mem_answerEvents he with ⟨m, rfl⟩ | rfl <;> exact ⟨rfl, by simp⟩

theorem accounted_insertFrame {w w' : World} {call : Nat} {frame : Frame} {e : Event}
    (h : Accounted w) (fresh : frame.message.tries = 0) (hcalls : w'.calls = w.calls.insert call frame)
    (hcache : w'.cache = w.cache) (hlog : w'.log = e :: w.log) (quiet : ∀ id, quietFor id e) :
    Accounted w' := by
  refine ⟨fun c f hf => ?_, fun id m hm => ?_⟩
  · rw [hcalls, Std.ExtTreeMap.getElem?_insert] at hf
    split at hf
    · cases hf
      exact fresh
    · exact h.frames c f hf
  · rw [hcache] at hm
    exact (h.entries id m hm).cons hlog (quiet id)

theorem accounted_closed : MoveClosed P (fun _ _ => True) Accounted := by
  intro w w' move h
  cases move with
  | deliver messages hp =>
    exact ⟨h.frames, fun id _ hm => (h.entries id _ hm).cons rfl ⟨rfl, by simp⟩⟩
  | skip hp empty => exact accounted_emit h fun _ => ⟨rfl, by simp⟩
  | rejected hr he => exact accounted_emit h fun _ => ⟨rfl, by simp⟩
  | awaitMember hp hr hm =>
    exact accounted_insertFrame h (QueuedMessage.ofJson_fresh P hm).1 rfl rfl rfl
      fun _ => ⟨rfl, by simp⟩
  | awaitDirectMessage hp hf hawait hid htries =>
    exact accounted_insertFrame h (htries.trans (h.frames _ _ hf)) rfl rfl rfl
      fun _ => ⟨rfl, by simp⟩
  | sent hq hp hf hsend hid htries =>
    refine accounted_store (htries.trans (h.frames _ _ hf.suspended)) ⟨fun c f hc => ?_, fun id q hq => ?_⟩
    · rw [World.sent, Std.ExtTreeMap.getElem?_erase] at hc
      split at hc
      · cases hc
      · exact h.frames c f hc
    · exact (h.entries id q hq).cons rfl ⟨rfl, by simp⟩
  | finish now hr => exact accounted_emit (accounted_report _ _ h) fun _ => ⟨rfl, by simp⟩
  | answer hq hr => exact accounted_answer h
  | lose hq hu => exact ⟨h.frames, fun id _ hm => (h.entries id _ hm).extend (lose_log _ _) (by simp)⟩

/-- **Retry accounting, as an invariant.** -/
theorem accounted {w : World} (hw : (system P).Reachable w) : Accounted w :=
  accounted_closed.reachable
    ⟨fun _ _ h => by simp [system] at h, fun _ _ h => by simp [system] at h⟩ hw

/-! ### How an entry leaves -/

/-- The entry `m` of `w` is still there in `w'`: not even reinserted, at most its
counter is different. -/
def Kept (w w' : World) (id : UInt64) (m : QueuedMessage) : Prop :=
  ∃ m', w'.cache.cacheMap[id]? = some m' ∧ m' = { m with tries := m'.tries } ∧
    ∃ new, w'.log = new ++ w.log ∧ ∀ e ∈ new, storedAs id e = none

/-- A sweep between `w` and `w'` erased the entry `m` of `w`, whose tries reached 4. -/
def SweptOut (w w' : World) (id : UInt64) (m : QueuedMessage) : Prop :=
  w'.cache.cacheMap[id]? = none ∧
    ∃ new, w'.log = new ++ w.log ∧ Event.discarded m.retry ∈ new ∧ m.retry.tries = 4

/-- Before the sweep, a step leaves an entry of the cache exactly as it is. -/
def Untouched (w : World) (id : UInt64) (m : QueuedMessage) (w' : World) : Prop :=
  w'.cache.cacheMap[id]? = some m ∧
    ∃ new, w'.log = new ++ w.log ∧ ∀ e ∈ new, storedAs id e = none

theorem Untouched.emit {w w₁ : World} {id : UInt64} {m : QueuedMessage} {e : Event}
    (h : Untouched w id m w₁) (quiet : storedAs id e = none) : Untouched w id m (w₁.emit e) := by
  obtain ⟨hm, new, hlog, hnew⟩ := h
  refine ⟨hm, e :: new, by rw [World.emit, hlog]; rfl, fun e' he' => ?_⟩
  rcases List.mem_cons.mp he' with rfl | he'
  · exact quiet
  · exact hnew e' he'

theorem Untouched.store {w w₁ : World} {id : UInt64} {m q : QueuedMessage}
    (h : Untouched w id m w₁) : Untouched w id m (w₁.store q) := by
  obtain ⟨hm, new, hlog, hnew⟩ := h
  have hm' : (w₁.store q).cache.cacheMap[id]? = some m := by
    rw [World.store, ProcessedMessageCache.getElem?_store, hm]
    simp
  cases hq : w₁.cache.cacheMap[q.id]? with
  | some old => exact ⟨hm', new, by simp [World.store, hq, hlog], hnew⟩
  | none =>
    have ne : q.id ≠ id := by
      rintro rfl
      rw [hm] at hq
      cases hq
    refine ⟨hm', .stored q :: new, by simp [World.store, hq, hlog], fun e he => ?_⟩
    rcases List.mem_cons.mp he with rfl | he
    · simp [storedAs, ne]
    · exact hnew e he

theorem Untouched.kept {w w₁ : World} {id : UInt64} {m : QueuedMessage}
    (h : Untouched w id m w₁) : Kept w w₁ id m := by
  obtain ⟨hm, hnew⟩ := h
  exact ⟨m, hm, rfl, hnew⟩

/-- The end of a batch keeps the entry with its counter advanced, or sweeps it out. -/
theorem Untouched.finishBatch {w w₁ : World} {id : UInt64} {m : QueuedMessage} {now : Int}
    {call : Nat} (h : Untouched w id m w₁) (hle : m.tries ≤ 3) :
    Kept w (w₁.finishBatch P now call) id m ∨
      (SweptOut w (w₁.finishBatch P now call) id m ∧ m.tries = 3) := by
  obtain ⟨hm, new, hlog, hnew⟩ := h
  rw [finishBatch_eq]
  set body := Json.object _
  have hfind : ((w₁.sweep.request call body).emit (.returned call)).cache.cacheMap[id]? =
      ProcessedMessageCache.sweep m := by
    change w₁.cache.clearGarbageAndIncreaseTries.cacheMap[id]? = _
    rw [ProcessedMessageCache.getElem?_clearGarbageAndIncreaseTries, hm, Option.bind_some]
  have hlog' : ((w₁.sweep.request call body).emit (.returned call)).log =
      (.returned call :: .reported call w₁.sweep.nextReport w₁.sweep.cache.snapshot ::
        w₁.cache.garbage.map .discarded ++ new) ++ w.log := by
    simp [World.emit, World.request, World.sweep, hlog]
  by_cases h3 : m.tries = 3
  · refine .inr ⟨⟨?_, _, hlog', ?_, by simp [h3]⟩, h3⟩
    · rw [hfind]
      simp [ProcessedMessageCache.sweep, h3]
    · have : m.retry ∈ w₁.cache.garbage :=
        ProcessedMessageCache.mem_garbage.mpr ⟨id, m, hm, rfl, by simp [h3]⟩
      simp [this]
  · refine .inl ⟨m.retry, ?_, rfl, _, hlog', fun e he => ?_⟩
    · rw [hfind]
      have : ¬ 4 ≤ m.tries + 1 := by omega
      simp [ProcessedMessageCache.sweep, this]
    · simp only [List.cons_append, List.mem_cons, List.mem_append, List.mem_map] at he
      rcases he with rfl | rfl | ⟨g, -, rfl⟩ | he
      · rfl
      · rfl
      · rfl
      · exact hnew e he

theorem Untouched.nextMessage {w w₁ : World} {id : UInt64} {m : QueuedMessage} {now : Int}
    {storage : Nat → UInt64} {call : Nat} {elements : List Json} (h : Untouched w id m w₁)
    (hle : m.tries ≤ 3) :
    Kept w (w₁.nextMessage P now storage call elements) id m ∨
      (SweptOut w (w₁.nextMessage P now storage call elements) id m ∧ m.tries = 3) := by
  refine nextMessage_rule (I := fun _ => Untouched w id m)
    (J := fun w' => Kept w w' id m ∨ (SweptOut w w' id m ∧ m.tries = 3)) ?_ ?_ ?_ elements w₁ h
  · intro message rest w₂ e _ h₂
    exact h₂.emit rfl
  · intro message rest w₂ q _ h₂
    have : Untouched w id m (w₂.emit (.memberLookup call rest.length q.id)) := h₂.emit rfl
    exact .inl (Untouched.kept this)
  · intro w₂ h₂
    exact h₂.finishBatch hle

/-- An answer leaves an entry alone, unless it accepts a report with its id. -/
theorem untouched_answer {w : World} {id : UInt64} {m : QueuedMessage} {n : Nat} {r : Report}
    {response : HttpRequestCompletion} (hm : w.cache.cacheMap[id]? = some m)
    (kept : ProcessedMessageCache.accepted response = true → id ∉ r.used) :
    Untouched w id m (w.answer n r response) := by
  refine ⟨?_, _, answer_log w n r response, fun e he => ?_⟩
  · rw [World.answer]
    cases hacc : ProcessedMessageCache.accepted response with
    | false => rw [ProcessedMessageCache.reported_of_not_accepted hacc, hm]
    | true => rw [ProcessedMessageCache.getElem?_reported hacc, if_neg (kept hacc), hm]
  · rcases mem_answerEvents he with ⟨q, rfl⟩ | rfl <;> rfl

/-- **Retry accounting of the report-back cache.** In every reachable world, every
entry has its key as id, is what was last inserted there except for the counter,
and has a counter of at most 3 that equals the number of reports issued about it
since its insertion. In the next step it either stays, or its key is in the id
list of a report the API accepts, or a sweep erases it after exactly three
reports about it. An answer that is no acceptance changes nothing in the cache. A report
on record was posted, with a body that lists its entries. -/
theorem retry_accounting (P : Platform) {w : World} (hw : (system P).Reachable w) :
    (∀ (id : UInt64) m, w.cache.cacheMap[id]? = some m → EntryAccounted w id m) ∧
    ReportsRecorded P w ∧
    ∀ l w', step P w l = some w' →
      (∀ (id : UInt64) m, w.cache.cacheMap[id]? = some m →
        Kept w w' id m ∨
        (∃ n response r, l = .answer n response ∧ w.reports[n]? = some r ∧ id ∈ r.used ∧
          ProcessedMessageCache.accepted response = true ∧ w'.cache.cacheMap[id]? = none) ∨
        (SweptOut w w' id m ∧ reportsSince w m = 3)) ∧
      ∀ n response, l = .answer n response → ProcessedMessageCache.accepted response = false →
        w'.cache = w.cache := by
  have acc := accounted hw
  refine ⟨acc.entries, reports_recorded hw, fun l w' hstep => ⟨fun id m hm => ?_, ?_⟩⟩
  · have entry := acc.entries id m hm
    have start : Untouched w id m w := ⟨hm, [], rfl, by simp⟩
    have finish : ∀ {w'}, Kept w w' id m ∨ (SweptOut w w' id m ∧ m.tries = 3) →
        Kept w w' id m ∨
        (∃ n response r, l = .answer n response ∧ w.reports[n]? = some r ∧ id ∈ r.used ∧
          ProcessedMessageCache.accepted response = true ∧ w'.cache.cacheMap[id]? = none) ∨
        (SweptOut w w' id m ∧ reportsSince w m = 3) := by
      rintro w' (h | ⟨h, h3⟩)
      · exact .inl h
      · exact .inr (.inr ⟨h, entry.tries_eq ▸ h3⟩)
    rcases step_cases hstep with ⟨messages, _, _, rfl, rfl, -⟩ |
      ⟨elements, now, storage, rfl, -, rfl⟩ | ⟨call, _, _, _, frame, q, rfl, hf, -, -, -, rfl⟩ |
      ⟨call, result, now, storage, frame, q, -, hf, -, -, -, rfl⟩ | ⟨n, response, r, rfl, hr, rfl⟩ |
      ⟨call, frame, -, rfl⟩ | ⟨call, result, -, rfl⟩
    · have : Untouched w id m (w.deliver messages) :=
        start.emit (e := .delivered w.nextCall messages) rfl
      exact .inl (Untouched.emit this rfl).kept
    · have : Untouched w id m (w.deliver (.array elements)) :=
        start.emit (e := .delivered w.nextCall (.array elements)) rfl
      exact finish (Untouched.nextMessage this entry.tries_le)
    · have : Untouched w id m (w.emit (.directMessage call frame.rest.length q.id)) :=
        start.emit rfl
      exact .inl (Untouched.kept this)
    · have : Untouched w id m (w.sent call frame.rest.length q) :=
        start.emit (e := .sent call frame.rest.length q) rfl
      exact finish (Untouched.nextMessage this.store entry.tries_le)
    · by_cases erased : ProcessedMessageCache.accepted response = true ∧ id ∈ r.used
      · refine .inr (.inl ⟨n, response, r, rfl, hr, erased.2, erased.1, ?_⟩)
        rw [World.answer, ProcessedMessageCache.getElem?_reported erased.1, if_pos erased.2]
      · exact .inl (untouched_answer hm fun hacc hused => erased ⟨hacc, hused⟩).kept
    · have : Untouched w id m (w.lose call) := start
      exact .inl (Untouched.kept this)
    · exact .inl start.kept
  · rintro n response rfl hacc
    simp only [step, Option.map_eq_some_iff] at hstep
    obtain ⟨r, -, rfl⟩ := hstep
    exact ProcessedMessageCache.reported_of_not_accepted hacc _ _

/-- A message is sent, and reported once. -/
def onceReported : World :=
  ((system samplePlatform).run {}
    [listMessage 7 1, completeWith 0 200 2, completeWith 0 200 3]).get (by decide +kernel)

theorem onceReported_reachable : (system samplePlatform).Reachable onceReported :=
  ⟨_, (Option.some_get _).symm⟩

theorem retry_accounting_onceReported :
    EntryAccounted onceReported 7
      { id := 7, guildId := 5, recipient := 9, embed := {}, tries := 1, processedAt := 2 } :=
  (retry_accounting samplePlatform onceReported_reachable).1 7 _ (by decide +kernel)

end Messages
