import CordactylBot.Lifecycle.Order
import CordactylBot.Dpp.Timers.Schedule

/-!
The bot and the clock.

`Lifecycle.system` lets a timer tick at any time. Here the timers of the bot are those of a
cluster (`TimerQueue`), started with the periods `main.cpp` and `signal_handler.cpp` give
them, and a tick is a timer that is popped.

* `timed_bot`, `timed_queue` — a timed run is a run of the bot and a run of the timers.
* `cadence` — how many plain acknowledgements have been posted at any time.
-/

open Transition

namespace Lifecycle

open Lifecycle.Bot

/-- The periods of the timers; the first is `ACKNOWLEDGE_FREQUENCY`. -/
def frequency : Timer → Nat
  | .acknowledge => 30
  | .fetch => 60 * 12
  | .timeout => 5

/-- The bot and the timers of its cluster. -/
structure TimedBot where
  bot : Bot := {}
  queue : TimerQueue Timer := {}

inductive TimedLabel where
  /-- anything but a tick -/
  | outside (l : Label) (now : Nat)
  | tickTimers (now : Nat)
  | pop (handle now : Nat)
  | reinsert
  | leave

/-- The timers that were stopped in a step. -/
def stopLabels (before after : Timers Timer) : List (TimerLabel Timer) :=
  (after.deletedTimers.filter (· ∉ before.deletedTimers)).map .stop

/-- The timers that were started in a step. -/
def startLabels (before after : Timers Timer) (now : Nat) : List (TimerLabel Timer) :=
  (List.range' before.nextHandle (after.nextHandle - before.nextHandle)).filterMap fun handle =>
    (after.nextTimer[handle]?).map fun timer => .start timer (frequency timer) now

variable (P : Platform) (isCentral : Bool)

/-- The bot takes a step, and what it does to its timers happens to those of the cluster. -/
def TimedBot.follow (tb : TimedBot) (queue : TimerQueue Timer) (l : Label) (now : Nat) :
    Option TimedBot :=
  (step P isCentral tb.bot l).bind fun bot =>
    ((TimerQueue.system Timer).run queue
      (stopLabels tb.bot.timers bot.timers ++ startLabels tb.bot.timers bot.timers now)).map
        fun queue => { bot, queue }

def timedStep (tb : TimedBot) : TimedLabel → Option TimedBot
  | .outside (.tick _) _ => none
  | .outside l now => tb.follow P isCentral tb.queue l now
  | .tickTimers now =>
      (TimerQueue.step tb.queue (.tickTimers now)).map fun queue => { tb with queue }
  | .pop handle now =>
      (TimerQueue.step tb.queue (.pop handle)).bind fun queue =>
        tb.follow P isCentral queue (.tick handle) now
  | .reinsert => (TimerQueue.step tb.queue .reinsert).map fun queue => { tb with queue }
  | .leave => (TimerQueue.step tb.queue .leave).map fun queue => { tb with queue }

def timedSystem : Transition.System TimedBot TimedLabel where
  start := {}
  step := timedStep P isCentral

variable {P isCentral}

/-! ### What a step does to the timers of the bot -/

/-- A step leaves the timers alone, or finishes the startup, which starts two. -/
inductive MayBegin (b b' : Bot) : Prop where
  | kept : b'.timers = b.timers → b'.acknowledgeTimer = b.acknowledgeTimer →
      (b'.startup = .finished ↔ b.startup = .finished) → MayBegin b b'
  | began : b.startup ≠ .finished → b'.startup = .finished →
      b'.timers = (b.timers.startTimer .acknowledge).startTimer .fetch →
      b'.acknowledgeTimer = b.timers.nextHandle → MayBegin b b'

/-- The effect of a step of the bot on its timers, when it is no tick. -/
inductive OutsideStep (b b' : Bot) : Prop where
  | goes : MayBegin b b' → OutsideStep b b'
  | signalled : b'.timers = (b.timers.stopTimer b.acknowledgeTimer).startTimer .timeout →
      b'.acknowledgeTimer = b.acknowledgeTimer → b'.startup = b.startup → OutsideStep b b'

theorem MayBegin.of_kept {b b₁ b' : Bot} (h : MayBegin b₁ b') (htimers : b₁.timers = b.timers)
    (hack : b₁.acknowledgeTimer = b.acknowledgeTimer)
    (hstartup : b₁.startup = .finished ↔ b.startup = .finished) : MayBegin b b' := by
  cases h with
  | kept ht ha hs => exact .kept (ht.trans htimers) (ha.trans hack) (hs.trans hstartup)
  | began hne hfinished ht ha =>
    exact .began (mt hstartup.mpr hne) hfinished (htimers ▸ ht) (htimers ▸ ha)

theorem finishStartup_timers (isCentral : Bool) {b : Bot} (h : b.startup ≠ .finished) :
    ∃ b', b.finishStartup isCentral = .ok b' ∧ MayBegin b b' := by
  obtain ⟨e, he, hfinish⟩ := finishStartup_eq isCentral b
  have htimers : e.timers = b.timers := by rcases he with rfl | rfl <;> rfl
  exact ⟨_, hfinish, .began h rfl (by rw [htimers]) (by rw [htimers])⟩

theorem goOn_timers (isCentral : Bool) (b : Bot) : MayBegin b (b.goOn isCentral) := by
  unfold goOn
  split
  · rename_i call hcall
    split
    · obtain ⟨b', hfinish, hbegin⟩ := finishStartup_timers isCentral (b := b) (by simp [hcall])
      rw [hfinish]
      exact hbegin
    · exact .kept rfl rfl Iff.rfl
  · exact .kept rfl rfl Iff.rfl

theorem handleBody_timers (isCentral isStartup : Bool) (response : HttpRequestCompletion) (now : Int)
    (storage : Nat → UInt64) (b : Bot) (h : isStartup = true → b.startup ≠ .finished) :
    MayBegin b (b.handleBody P isCentral isStartup response now storage) := by
  unfold handleBody
  split
  · exact .kept rfl rfl Iff.rfl
  · rename_i lines _
    cases isStartup with
    | false => exact .kept rfl rfl Iff.rfl
    | true =>
      obtain ⟨b', hfinish, hbegin⟩ := finishStartup_timers isCentral
        (b := b.logLines lines) (h rfl)
      simp only [if_true, hfinish, attempt]
      exact hbegin.of_kept rfl rfl Iff.rfl
  · cases isStartup with
    | false => exact .kept rfl rfl Iff.rfl
    | true =>
      simp only [if_true]
      refine (goOn_timers isCentral _).of_kept rfl rfl ?_
      exact iff_of_false (by simp) (h rfl)

theorem handleFetch_timers {b : Bot} (h : b.acknowledge.payload.Mergeable) (isStartup : Bool)
    (response : HttpRequestCompletion) (hstartup : isStartup = true → b.startup ≠ .finished) :
    MayBegin b (b.handleFetch P isStartup response) := by
  unfold handleFetch
  split
  · exact .kept rfl rfl Iff.rfl
  · rename_i acknowledge hfetched
    cases isStartup with
    | false => exact .kept rfl rfl Iff.rfl
    | true =>
      have mergeable : acknowledge.payload.Mergeable :=
        AcknowledgePayload.fetched_payload hfetched ▸ h
      dsimp only
      rw [if_pos rfl, sendAcknowledgement, post_eq mergeable]
      have unfinished : Startup.acknowledging ≠ .finished := by simp
      exact .kept rfl rfl (iff_of_false unfinished (hstartup rfl))

theorem handleEdit_timers (b : Bot) (response : HttpRequestCompletion) :
    MayBegin b (b.handleEdit P response) := by
  unfold handleEdit
  dsimp only
  split <;> exact .kept rfl rfl Iff.rfl

theorem handleReply_timers {b : Bot} (h : b.acknowledge.payload.Mergeable) (isStartup : Bool)
    (response : HttpRequestCompletion) (now : Int) (storage : Nat → UInt64)
    (hstartup : isStartup = true → b.startup ≠ .finished) :
    MayBegin b (b.handleReply P isCentral isStartup response now storage) := by
  unfold handleReply
  dsimp only
  split
  · have mergeable : (b.replied response).acknowledge.payload.Mergeable := h
    rw [Bot.exit, post_eq mergeable]
    have body : MayBegin _ _ := handleBody_timers (P := P) isCentral isStartup response now storage
      ((b.replied response).posted .shutdown (.shutdown exitInvalidApiToken)) hstartup
    exact body.of_kept rfl rfl Iff.rfl
  · have body : MayBegin _ _ := handleBody_timers (P := P) isCentral isStartup response now storage
      (b.replied response) hstartup
    exact body.of_kept rfl rfl Iff.rfl

/-- The startup has not finished while it waits for a request. -/
theorem Sound.unfinished {b : Bot} {n : Nat} {r : Request} (h : Sound b)
    (hn : b.requests[n]? = some r) (hr : r.phase? ≠ none) : b.startup ≠ .finished := by
  obtain ⟨k, hk⟩ := h.request
  obtain ⟨p, hp⟩ := Option.ne_none_iff_exists'.mp hr
  rw [(hk n r p hn hp).2]
  unfold Request.phase? at hp
  split at hp <;> cases hp <;> simp

theorem outside_timers {b b' : Bot} {l : Label} (h : Sound b) (hl : ∀ handle, l ≠ .tick handle)
    (hstep : step P isCentral b l = some b') : OutsideStep b b' := by
  unfold step at hstep
  split at hstep
  · cases hstep
  cases l with
  | ready =>
    cases hstep
    unfold ready
    split
    · rename_i hfirst
      refine .goes (.kept rfl rfl ?_)
      exact iff_of_false (by simp [request]) (by simp [hfirst])
    · exact .goes (.kept rfl rfl Iff.rfl)
  | completed n response now storage =>
    obtain ⟨r, hn, rfl⟩ := Option.map_eq_some_iff.mp hstep
    cases r with
    | fetch isStartup =>
      refine .goes ((handleFetch_timers (b := b.taken n) h.payload isStartup response ?_).of_kept
        rfl rfl Iff.rfl)
      rintro rfl
      exact h.unfinished hn (by simp [Request.phase?])
    | edit => exact .goes ((handleEdit_timers (b.taken n) response).of_kept rfl rfl Iff.rfl)
    | acknowledgement isStartup =>
      refine .goes ((handleReply_timers (b := b.taken n) h.payload isStartup response now storage
        ?_).of_kept rfl rfl Iff.rfl)
      rintro rfl
      exact h.unfinished hn (by simp [Request.phase?])
    | shutdown signal => exact .goes (.kept rfl rfl Iff.rfl)
  | resumed call result now storage =>
    obtain ⟨w, hw, rfl⟩ := Option.map_eq_some_iff.mp hstep
    exact .goes ((goOn_timers isCentral _).of_kept rfl rfl Iff.rfl)
  | created call result =>
    obtain ⟨w, hw, rfl⟩ := Option.map_eq_some_iff.mp hstep
    exact .goes (.kept rfl rfl Iff.rfl)
  | reportAnswered n response =>
    obtain ⟨w, hw, rfl⟩ := Option.map_eq_some_iff.mp hstep
    exact .goes (.kept rfl rfl Iff.rfl)
  | tick handle => exact absurd rfl (hl handle)
  | signal signal =>
    dsimp only at hstep
    split at hstep
    · cases hstep
      rw [signalHandler_eq h.payload]
      exact .signalled rfl rfl rfl
    · cases hstep

/-- The timers behind a tick. -/
def afterTick (ts : Timers Timer) (handle : Nat) (timer : Timer) : Timers Timer :=
  if handle ∈ ts.deletedTimers then ts.drop handle
  else
    match timer with
    | .timeout => ts.stopTimer handle
    | .acknowledge | .fetch => ts

theorem tick_timers {b b' : Bot} {handle : Nat} (h : Sound b)
    (hstep : step P isCentral b (.tick handle) = some b') :
    ∃ timer, b.timers.nextTimer[handle]? = some timer ∧
      b'.timers = afterTick b.timers handle timer ∧
      b'.acknowledgeTimer = b.acknowledgeTimer ∧ b'.startup = b.startup := by
  unfold step at hstep
  split at hstep
  · cases hstep
  obtain ⟨timer, due, rfl⟩ := Option.map_eq_some_iff.mp hstep
  refine ⟨timer, due, ?_⟩
  unfold tick afterTick
  split
  · exact ⟨rfl, rfl, rfl⟩
  · cases timer with
    | acknowledge =>
      rw [sendAcknowledgement, post_eq h.payload]
      exact ⟨rfl, rfl, rfl⟩
    | fetch => exact ⟨rfl, rfl, rfl⟩
    | timeout => exact ⟨rfl, rfl, rfl⟩

/-! ### The same timers -/

/-- The timers of the bot are those of the cluster, without their times. -/
structure Matches (ts : Timers Timer) (q : TimerQueue Timer) : Prop where
  nextHandle : q.nextHandle = ts.nextHandle
  deleted : q.deletedTimers = ts.deletedTimers
  timer : ∀ handle timer, ts.nextTimer[handle]? = some timer ↔
    ∃ t ∈ q.all, t.handle = handle ∧ t.onTick = timer
  frequency : ∀ t ∈ q.all, t.frequency = frequency t.onTick

variable {ts : Timers Timer} {q : TimerQueue Timer}

theorem Matches.stopTimer (h : Matches ts q) (handle : Nat) :
    Matches (ts.stopTimer handle) (q.stopTimer handle) :=
  ⟨h.nextHandle, congrArg (List.insert handle) h.deleted, h.timer, h.frequency⟩

theorem mem_all_startTimer {timer : Timer} {period now : Nat} {t : ClusterTimer Timer} :
    t ∈ (q.startTimer timer period now).all ↔
      t = ⟨q.nextHandle, now + period, period, timer⟩ ∨ t ∈ q.all := by
  simp only [TimerQueue.all, TimerQueue.startTimer, List.mem_append, List.mem_cons]
  tauto

theorem known_startTimer (known : ∀ t ∈ q.all, t.handle < q.nextHandle) (timer : Timer)
    (period now : Nat) : ∀ t ∈ (q.startTimer timer period now).all, t.handle < q.nextHandle + 1 := by
  intro t ht
  rcases mem_all_startTimer.mp ht with rfl | ht
  · exact Nat.lt_succ_self _
  · exact Nat.lt_succ_of_lt (known t ht)

theorem Matches.startTimer (h : Matches ts q) (known : ∀ t ∈ q.all, t.handle < q.nextHandle)
    (timer : Timer) (now : Nat) :
    Matches (ts.startTimer timer) (q.startTimer timer (Lifecycle.frequency timer) now) := by
  refine ⟨congrArg (· + 1) h.nextHandle, h.deleted, fun handle x => ?_, fun t ht => ?_⟩
  · rw [Timers.startTimer, Std.ExtTreeMap.getElem?_insert]
    by_cases heq : ts.nextHandle = handle
    · rw [if_pos (by simp [heq])]
      constructor
      · rintro ⟨⟩
        exact ⟨_, mem_all_startTimer.mpr (.inl rfl), h.nextHandle.trans heq, rfl⟩
      · rintro ⟨t, ht, hhandle, rfl⟩
        rcases mem_all_startTimer.mp ht with rfl | ht
        · rfl
        · have := known t ht
          rw [h.nextHandle] at this
          omega
    · rw [if_neg (by simpa using heq), h.timer]
      constructor
      · rintro ⟨t, ht, hrest⟩
        exact ⟨t, mem_all_startTimer.mpr (.inr ht), hrest⟩
      · rintro ⟨t, ht, hhandle, hx⟩
        rcases mem_all_startTimer.mp ht with rfl | ht
        · exact absurd (h.nextHandle.symm.trans hhandle) heq
        · exact ⟨t, ht, hhandle, hx⟩
  · rcases mem_all_startTimer.mp ht with rfl | ht
    · rfl
    · exact h.frequency t ht

theorem Matches.drop (h : Matches ts q) (hcurrent : q.current = none) {timer : ClusterTimer Timer} :
    Matches (ts.drop timer.handle) (q.drop timer) := by
  have hall : ∀ t, t ∈ (q.drop timer).all ↔ t ∈ q.all ∧ t.handle ≠ timer.handle := fun t => by
    rw [TimerQueue.all_drop hcurrent, TimerQueue.all_of_idle hcurrent, TimerQueue.mem_popped]
  refine ⟨h.nextHandle, congrArg (List.filter (· ≠ timer.handle)) h.deleted, fun handle x => ?_,
    fun t ht => h.frequency t ((hall t).mp ht).1⟩
  rw [Timers.drop, Std.ExtTreeMap.getElem?_erase]
  by_cases heq : timer.handle = handle
  · rw [if_pos (by simp [heq])]
    refine iff_of_false (by simp) ?_
    rintro ⟨t, ht, rfl, -⟩
    exact ((hall t).mp ht).2 heq.symm
  · rw [if_neg (by simpa using heq), h.timer]
    constructor
    · rintro ⟨t, ht, hhandle, hx⟩
      exact ⟨t, (hall t).mpr ⟨ht, fun h' => heq (h'.symm.trans hhandle)⟩, hhandle, hx⟩
    · rintro ⟨t, ht, hrest⟩
      exact ⟨t, ((hall t).mp ht).1, hrest⟩

/-- Timers that only change their place. -/
theorem Matches.of_moved (h : Matches ts q) {q' : TimerQueue Timer}
    (hnext : q'.nextHandle = q.nextHandle) (hdeleted : q'.deletedTimers = q.deletedTimers)
    (hkey : ∀ handle x, (∃ t ∈ q'.all, t.handle = handle ∧ t.onTick = x) ↔
      ∃ t ∈ q.all, t.handle = handle ∧ t.onTick = x)
    (hfrequency : ∀ t ∈ q'.all, t.frequency = Lifecycle.frequency t.onTick) : Matches ts q' :=
  ⟨hnext.trans h.nextHandle, hdeleted.trans h.deleted, fun handle x => (h.timer handle x).trans
    (hkey handle x).symm, hfrequency⟩

/-- A timer that ticks is still there. -/
theorem mem_all_tick (hnodup : (q.all.map ClusterTimer.handle).Nodup) (hcurrent : q.current = none)
    {timer t : ClusterTimer Timer} (hmem : timer ∈ q.nextTimer) (now : Nat) :
    t ∈ (q.tick timer now).all ↔ t ∈ q.all := by
  have hall := TimerQueue.all_of_idle hcurrent
  rw [hall] at hnodup ⊢
  constructor
  · intro ht
    rcases List.mem_cons.mp ht with rfl | ht
    · exact hmem
    · exact (TimerQueue.mem_popped.mp ht).1
  · intro ht
    by_cases heq : t.handle = timer.handle
    · rw [List.inj_on_of_nodup_map hnodup ht hmem heq]
      exact List.mem_cons_self
    · exact List.mem_cons_of_mem _ (TimerQueue.mem_popped.mpr ⟨ht, heq⟩)

theorem Matches.tick (h : Matches ts q) (hnodup : (q.all.map ClusterTimer.handle).Nodup)
    (hcurrent : q.current = none) {timer : ClusterTimer Timer} (hmem : timer ∈ q.nextTimer)
    (now : Nat) : Matches ts (q.tick timer now) := by
  have hsame : ∀ t, t ∈ (q.tick timer now).all ↔ t ∈ q.all := fun t =>
    mem_all_tick hnodup hcurrent hmem now
  exact h.of_moved rfl rfl (fun handle x => by simp only [hsame])
    fun t ht => h.frequency t ((hsame t).mp ht)

theorem Matches.reinsert (h : Matches ts q) {timer : ClusterTimer Timer}
    (hcurrent : q.current = some timer) : Matches ts (q.reinsert timer) := by
  have hall : q.all = timer :: q.nextTimer := by simp [TimerQueue.all, hcurrent]
  have hall' : (q.reinsert timer).all =
      { timer with nextTick := timer.nextTick + timer.frequency } :: q.nextTimer := rfl
  refine h.of_moved rfl rfl (fun handle x => ?_) fun t ht => ?_
  · rw [hall, hall', List.exists_mem_cons_iff, List.exists_mem_cons_iff]
  · rw [hall'] at ht
    rcases List.mem_cons.mp ht with rfl | ht
    · exact h.frequency timer (hall ▸ List.mem_cons_self)
    · exact h.frequency t (hall ▸ List.mem_cons_of_mem _ ht)

/-! ### The timers follow the bot -/

theorem stopLabels_of_subset {ts' : Timers Timer} (h : ∀ x ∈ ts'.deletedTimers, x ∈ ts.deletedTimers) :
    stopLabels ts ts' = [] := by
  rw [stopLabels, List.filter_eq_nil_iff.mpr fun x hx => by simpa using h x hx]
  rfl

theorem startLabels_of_same {ts' : Timers Timer} (h : ts'.nextHandle = ts.nextHandle) (now : Nat) :
    startLabels ts ts' now = [] := by
  rw [startLabels, h, Nat.sub_self]
  rfl

/-- Noting a handle twice changes nothing. -/
theorem run_stopLabels (h : Matches ts q) {ts' : Timers Timer} {handle : Nat}
    (hdeleted : ts'.deletedTimers = ts.deletedTimers.insert handle) :
    (TimerQueue.system Timer).run q (stopLabels ts ts') = some (q.stopTimer handle) := by
  by_cases hmem : handle ∈ ts.deletedTimers
  · have hnone : stopLabels ts ts' = [] := by
      refine stopLabels_of_subset fun x hx => ?_
      rwa [hdeleted, List.insert_of_mem hmem] at hx
    have hsame : q.stopTimer handle = q := by
      rw [TimerQueue.stopTimer, List.insert_of_mem (h.deleted ▸ hmem)]
    rw [hnone, hsame, System.run_nil]
  · have hone : stopLabels ts ts' = [.stop handle] := by
      have hrest : ts.deletedTimers.filter (· ∉ ts.deletedTimers) = [] :=
        List.filter_eq_nil_iff.mpr fun x hx => by simpa using hx
      rw [stopLabels, hdeleted, List.insert_of_not_mem hmem,
        List.filter_cons_of_pos (by simpa using hmem), hrest]
      rfl
    rw [hone]
    rfl

theorem run_start {timer : Timer} {period now : Nat} {q' : TimerQueue Timer}
    {labels : List (TimerLabel Timer)}
    (hrun : (TimerQueue.system Timer).run q (.start timer period now :: labels) = some q') :
    (TimerQueue.system Timer).run (q.startTimer timer period now) labels = some q' := by
  obtain ⟨q₁, hstep, hrest⟩ := System.run_cons _ |>.mp hrun
  have hstart : TimerQueue.step q (.start timer period now) = some q₁ := hstep
  cases TimerQueue.stepped hstart with
  | start => exact hrest

theorem startLabels_two (timer timer' : Timer) (now : Nat) :
    startLabels ts ((ts.startTimer timer).startTimer timer') now =
      [.start timer (frequency timer) now, .start timer' (frequency timer') now] := by
  have hfirst : ((ts.startTimer timer).startTimer timer').nextTimer[ts.nextHandle]? = some timer := by
    rw [Timers.startTimer, Timers.startTimer, Std.ExtTreeMap.getElem?_insert,
      if_neg (by simp), Std.ExtTreeMap.getElem?_insert_self]
  have hsecond : ((ts.startTimer timer).startTimer timer').nextTimer[ts.nextHandle + 1]? =
      some timer' := by
    simp [Timers.startTimer]
  have hrange : List.range' ts.nextHandle
      (((ts.startTimer timer).startTimer timer').nextHandle - ts.nextHandle) =
      [ts.nextHandle, ts.nextHandle + 1] := by
    have htwo : ts.nextHandle + 1 + 1 - ts.nextHandle = 2 := by omega
    simp only [Timers.startTimer, htwo]
    rfl
  simp [startLabels, hrange, hfirst, hsecond]

theorem startLabels_one (handle : Nat) (timer : Timer) (now : Nat) :
    startLabels ts ((ts.stopTimer handle).startTimer timer) now =
      [.start timer (frequency timer) now] := by
  have hfirst : ((ts.stopTimer handle).startTimer timer).nextTimer[ts.nextHandle]? = some timer := by
    simp [Timers.startTimer, Timers.stopTimer]
  have hrange : List.range' ts.nextHandle
      (((ts.stopTimer handle).startTimer timer).nextHandle - ts.nextHandle) = [ts.nextHandle] := by
    have hone : ts.nextHandle + 1 - ts.nextHandle = 1 := by omega
    simp only [Timers.startTimer, Timers.stopTimer, hone]
    rfl
  simp [startLabels, hrange, hfirst]

/-- What happens to the timers of the cluster in a step of the bot that is no tick. -/
inductive OutsideQueue (b b' : Bot) (q : TimerQueue Timer) (now : Nat) : TimerQueue Timer → Prop where
  | kept : b'.timers = b.timers → b'.acknowledgeTimer = b.acknowledgeTimer →
      (b'.startup = .finished ↔ b.startup = .finished) → OutsideQueue b b' q now q
  | began : b.startup ≠ .finished → b'.startup = .finished →
      b'.timers = (b.timers.startTimer .acknowledge).startTimer .fetch →
      b'.acknowledgeTimer = b.timers.nextHandle → OutsideQueue b b' q now
        ((q.startTimer .acknowledge (frequency .acknowledge) now).startTimer .fetch
          (frequency .fetch) now)
  | signalled : b'.timers = (b.timers.stopTimer b.acknowledgeTimer).startTimer .timeout →
      b'.acknowledgeTimer = b.acknowledgeTimer → b'.startup = b.startup → OutsideQueue b b' q now
        ((q.stopTimer b.acknowledgeTimer).startTimer .timeout (frequency .timeout) now)

theorem outside_queue {b b' : Bot} {q' : TimerQueue Timer} {now : Nat} (h : Matches b.timers q)
    (heffect : OutsideStep b b') (hrun : (TimerQueue.system Timer).run q
      (stopLabels b.timers b'.timers ++ startLabels b.timers b'.timers now) = some q') :
    OutsideQueue b b' q now q' := by
  cases heffect with
  | goes hgoes =>
    cases hgoes with
    | kept htimers hack hstartup =>
      rw [htimers, stopLabels_of_subset (fun _ hx => hx), startLabels_of_same rfl] at hrun
      cases hrun
      exact .kept htimers hack hstartup
    | began hne hfinished htimers hack =>
      have hnone : stopLabels b.timers ((b.timers.startTimer .acknowledge).startTimer .fetch) = [] :=
        stopLabels_of_subset fun _ hx => hx
      rw [htimers, hnone, startLabels_two, List.nil_append] at hrun
      have hend := run_start (run_start hrun)
      cases hend
      exact .began hne hfinished htimers hack
  | signalled htimers hack hstartup =>
    rw [htimers, startLabels_one] at hrun
    obtain ⟨q₁, hstop, hstart⟩ := System.run_append _ |>.mp hrun
    rw [run_stopLabels h rfl] at hstop
    cases hstop
    have hend := run_start hstart
    cases hend
    exact .signalled htimers hack hstartup

/-! ### How many acknowledgements -/

/-- The plain acknowledgements posted. -/
def plains (log : List Event) : Nat :=
  (posts log).count .plain

theorem plains_step {b b' : Bot} {l : Label} (h : Sound b) (hstep : step P isCentral b l = some b') :
    plains b'.log = plains b.log +
      if acknowledgementOf P isCentral b l = some .plain then 1 else 0 := by
  rw [plains, (logged_step (step_cases h.payload hstep)).posts, List.count_append, ← plains]
  congr 1
  cases acknowledgementOf P isCentral b l with
  | none => rfl
  | some kind => cases kind <;> rfl

theorem acknowledgementOf_outside {b : Bot} {l : Label} (hl : ∀ handle, l ≠ .tick handle) :
    acknowledgementOf P isCentral b l ≠ some .plain := by
  unfold acknowledgementOf
  split
  · split
    · split <;> simp
    · split <;> simp
    · simp
  · exact absurd rfl (hl _)
  · simp
  · simp

/-- The acknowledge timer is the one the startup started, and each of its ticks has posted an
acknowledgement. -/
structure Cadenced (tb : TimedBot) : Prop where
  early : tb.bot.startup ≠ .finished → plains tb.bot.log = 0
  late : tb.bot.startup = .finished →
    plains tb.bot.log = TimerQueue.ticks tb.bot.acknowledgeTimer tb.queue.log ∧
      tb.bot.acknowledgeTimer < tb.queue.nextHandle ∧
      (∀ t ∈ tb.queue.all, t.onTick = .acknowledge ↔ t.handle = tb.bot.acknowledgeTimer) ∧
      ∃ s, .started tb.bot.acknowledgeTimer (frequency .acknowledge) s ∈ tb.queue.log

/-- What a timed run keeps. -/
structure Timed (P : Platform) (isCentral : Bool) (tb : TimedBot) : Prop where
  bot : (system P isCentral).Reachable tb.bot
  queue : (TimerQueue.system Timer).Reachable tb.queue
  same : Matches tb.bot.timers tb.queue
  cadenced : Cadenced tb

theorem cadenced_outside {b b' : Bot} {q' : TimerQueue Timer} {now : Nat} (hsound : Sound b)
    (hscheduled : TimerQueue.Scheduled q) (hsame : Matches b.timers q)
    (h : Cadenced { bot := b, queue := q }) (hplains : plains b'.log = plains b.log)
    (heffect : OutsideQueue b b' q now q') :
    Matches b'.timers q' ∧ Cadenced { bot := b', queue := q' } := by
  cases heffect with
  | kept htimers hack hstartup =>
    refine ⟨htimers ▸ hsame, fun hne => hplains.trans (h.early (mt hstartup.mpr hne)),
      fun hfinished => ?_⟩
    have hlate := h.late (hstartup.mp hfinished)
    simpa only [hplains, hack] using hlate
  | began hne hfinished htimers hack =>
    have known := hscheduled.known
    have hack' : b'.acknowledgeTimer = q.nextHandle := hack.trans hsame.nextHandle.symm
    refine ⟨?_, fun hne' => absurd hfinished hne', fun _ => ?_⟩
    · rw [htimers]
      exact (hsame.startTimer known .acknowledge now).startTimer
        (known_startTimer known .acknowledge _ now) .fetch now
    · have hticks : TimerQueue.ticks q.nextHandle
          (.started (q.nextHandle + 1) (frequency .fetch) now ::
            .started q.nextHandle (frequency .acknowledge) now :: q.log) = 0 := by
        rw [TimerQueue.ticks_cons_of_not rfl, TimerQueue.ticks_cons_of_not rfl,
          TimerQueue.ticks_eq_zero hscheduled.logged]
      refine ⟨?_, ?_, fun t ht => ?_, now, ?_⟩
      · rw [hack']
        exact (hplains.trans (h.early hne)).trans hticks.symm
      · rw [hack']
        exact Nat.lt_succ_of_lt (Nat.lt_succ_self _)
      · rw [hack']
        rcases mem_all_startTimer.mp ht with rfl | ht
        · exact iff_of_false nofun (Nat.succ_ne_self _)
        · rcases mem_all_startTimer.mp ht with rfl | ht
          · exact iff_of_true rfl rfl
          · refine iff_of_false (fun honTick => hne ?_) (Nat.ne_of_lt (known t ht))
            exact hsound.timer t.handle ((hsame.timer _ _).mpr ⟨t, ht, rfl, honTick⟩)
      · rw [hack']
        exact List.mem_cons_of_mem _ List.mem_cons_self
  | signalled htimers hack hstartup =>
    refine ⟨?_, fun hne => hplains.trans (h.early (hstartup ▸ hne)), fun hfinished => ?_⟩
    · rw [htimers]
      exact (hsame.stopTimer _).startTimer hscheduled.known .timeout now
    · obtain ⟨hcount, hlt, honly, s, hs⟩ := h.late (hstartup ▸ hfinished)
      refine ⟨?_, ?_, fun t ht => ?_, s, ?_⟩
      · rw [hack]
        refine (hplains.trans hcount).trans ?_
        exact (TimerQueue.ticks_cons_of_not rfl q.log).symm
      · rw [hack]
        exact Nat.lt_succ_of_lt hlt
      · rw [hack]
        rcases mem_all_startTimer.mp ht with rfl | ht
        · exact iff_of_false nofun (Nat.ne_of_gt hlt)
        · exact honly t ht
      · rw [hack]
        exact List.mem_cons_of_mem _ hs

/-- The bot follows a timer that is popped. -/
theorem cadenced_pop {b b' : Bot} {q₁ q' : TimerQueue Timer} {handle now : Nat} (hsound : Sound b)
    (hscheduled : TimerQueue.Scheduled q) (hsame : Matches b.timers q)
    (h : Cadenced { bot := b, queue := q })
    (hpop : TimerQueue.step q (.pop handle) = some q₁)
    (hstep : step P isCentral b (.tick handle) = some b')
    (hrun : (TimerQueue.system Timer).run q₁
      (stopLabels b.timers b'.timers ++ startLabels b.timers b'.timers now) = some q') :
    Matches b'.timers q' ∧ Cadenced { bot := b', queue := q' } := by
  obtain ⟨timer, hdue, htimers, hack, hstartup⟩ := tick_timers hsound hstep
  have hplains := plains_step hsound hstep
  cases TimerQueue.stepped hpop with
  | @dropped t popped hticking hcurrent hmem _ _ hdeleted =>
    have hall := TimerQueue.all_of_idle hcurrent
    have hdeleted' : t.handle ∈ b.timers.deletedTimers := hsame.deleted ▸ hdeleted
    have hnone : acknowledgementOf P isCentral b (.tick t.handle) ≠ some .plain := by
      simp [acknowledgementOf, hdeleted']
    rw [if_neg hnone, Nat.add_zero] at hplains
    simp only [afterTick, if_pos hdeleted'] at htimers
    have hnostop : stopLabels b.timers (b.timers.drop t.handle) = [] :=
      stopLabels_of_subset fun x hx => (List.mem_filter.mp hx).1
    have hnostart : startLabels b.timers (b.timers.drop t.handle) now = [] :=
      startLabels_of_same rfl now
    rw [htimers, hnostop, hnostart] at hrun
    cases hrun
    refine ⟨htimers ▸ hsame.drop hcurrent, fun hne => hplains.trans (h.early (hstartup ▸ hne)),
      fun hfinished => ?_⟩
    obtain ⟨hcount, hlt, honly, s, hs⟩ := h.late (hstartup ▸ hfinished)
    refine ⟨?_, hack ▸ hlt, fun x hx => ?_, s, hack ▸ List.mem_cons_of_mem _ hs⟩
    · rw [hack]
      exact (hplains.trans hcount).trans (TimerQueue.ticks_cons_of_not rfl q.log).symm
    · rw [hack]
      refine honly x ?_
      rw [TimerQueue.all_drop hcurrent] at hx
      exact hall ▸ (TimerQueue.mem_popped.mp hx).1
  | @ticked t popped hticking hcurrent hmem _ _ hlive =>
    have hmem' : t ∈ q.all := List.mem_append_right _ hmem
    have hlive' : t.handle ∉ b.timers.deletedTimers := hsame.deleted ▸ hlive
    obtain rfl : timer = t.onTick :=
      Option.some.inj (hdue.symm.trans ((hsame.timer _ _).mpr ⟨t, hmem', rfl, rfl⟩))
    have hsame₁ := hsame.tick hscheduled.nodup hcurrent hmem popped
    -- the timeout stops its timer, and the other timers leave all as it is
    have hrest : Matches b'.timers q' ∧ q'.log = .ticked t.handle popped :: q.log ∧
        q'.nextHandle = q.nextHandle ∧ q'.all = (q.tick t popped).all := by
      simp only [afterTick, if_neg hlive'] at htimers
      cases honTick : t.onTick with
      | timeout =>
        simp only [honTick] at htimers
        have hnostart : startLabels b.timers (b.timers.stopTimer t.handle) now = [] :=
          startLabels_of_same rfl now
        rw [htimers, hnostart, List.append_nil, run_stopLabels hsame₁ rfl] at hrun
        cases hrun
        exact ⟨htimers ▸ hsame₁.stopTimer t.handle, rfl, rfl, rfl⟩
      | acknowledge | fetch =>
        simp only [honTick] at htimers
        have hnostop : stopLabels b.timers b.timers = [] := stopLabels_of_subset fun _ hx => hx
        rw [htimers, hnostop, startLabels_of_same rfl] at hrun
        cases hrun
        exact ⟨htimers ▸ hsame₁, rfl, rfl, rfl⟩
    obtain ⟨hsame', hlog, hnext, hall⟩ := hrest
    have hplain : acknowledgementOf P isCentral b (.tick t.handle) = some .plain ↔
        t.onTick = .acknowledge := by
      simp [acknowledgementOf, hdue, hlive']
    refine ⟨hsame', fun hne => ?_, fun hfinished => ?_⟩
    · have hnot : t.onTick ≠ .acknowledge := fun honTick =>
        hne (hstartup.trans (hsound.timer t.handle (honTick ▸ hdue)))
      rw [if_neg (mt hplain.mp hnot), Nat.add_zero] at hplains
      exact hplains.trans (h.early (hstartup ▸ hne))
    · obtain ⟨hcount, hlt, honly, s, hs⟩ := h.late (hstartup ▸ hfinished)
      have hcount' : plains b.log = TimerQueue.ticks b.acknowledgeTimer q.log := hcount
      refine ⟨?_, by rw [hack, hnext]; exact hlt, fun x hx => ?_, s, ?_⟩
      · rw [hack, hlog, hplains, hcount']
        by_cases honTick : t.onTick = .acknowledge
        · have heq : t.handle = b.acknowledgeTimer := (honly t hmem').mp honTick
          rw [if_pos (hplain.mpr honTick), heq]
          exact (List.countP_cons_of_pos (by simp [TimerQueue.isTick])).symm
        · have hne : t.handle ≠ b.acknowledgeTimer := mt (honly t hmem').mpr honTick
          rw [if_neg (mt hplain.mp honTick), Nat.add_zero]
          exact (TimerQueue.ticks_cons_of_not (by simpa [TimerQueue.isTick] using hne) q.log).symm
      · rw [hack]
        exact honly x ((mem_all_tick hscheduled.nodup hcurrent hmem popped).mp (hall ▸ hx))
      · rw [hack, hlog]
        exact List.mem_cons_of_mem _ hs

theorem queue_step {q' : TimerQueue Timer} {l : TimerLabel Timer}
    (h : (TimerQueue.system Timer).Reachable q) (hstep : TimerQueue.step q l = some q') :
    (TimerQueue.system Timer).Reachable q' :=
  h.step (a := l) hstep

theorem timed_preserved : (timedSystem P isCentral).Preserved (Timed P isCentral) := by
  intro tb l tb' h hstep
  have hsound := sound h.bot
  have hscheduled := TimerQueue.scheduled h.queue
  have hstep' : timedStep P isCentral tb l = some tb' := hstep
  cases l with
  | outside l now =>
    have hl : ∀ handle, l ≠ .tick handle := by
      rintro handle rfl
      cases hstep'
    have hfollow : tb.follow P isCentral tb.queue l now = some tb' := by
      cases l <;> first | exact hstep' | exact absurd rfl (hl _)
    obtain ⟨b', hbot, hrest⟩ := Option.bind_eq_some_iff.mp hfollow
    obtain ⟨q', hrun, rfl⟩ := Option.map_eq_some_iff.mp hrest
    have hplains := plains_step hsound hbot
    rw [if_neg (acknowledgementOf_outside hl), Nat.add_zero] at hplains
    obtain ⟨hsame, hcadenced⟩ := cadenced_outside hsound hscheduled h.same h.cadenced hplains
      (outside_queue h.same (outside_timers hsound hl hbot) hrun)
    exact ⟨h.bot.step (a := l) hbot, h.queue.run hrun, hsame, hcadenced⟩
  | pop handle now =>
    obtain ⟨q₁, hpop, hfollow⟩ := Option.bind_eq_some_iff.mp hstep'
    obtain ⟨b', hbot, hrest⟩ := Option.bind_eq_some_iff.mp hfollow
    obtain ⟨q', hrun, rfl⟩ := Option.map_eq_some_iff.mp hrest
    obtain ⟨hsame, hcadenced⟩ := cadenced_pop hsound hscheduled h.same h.cadenced hpop hbot hrun
    exact ⟨h.bot.step (a := .tick handle) hbot,
      (queue_step h.queue hpop).run hrun, hsame, hcadenced⟩
  | tickTimers now =>
    obtain ⟨q', hq, rfl⟩ := Option.map_eq_some_iff.mp hstep'
    have hqueue := queue_step h.queue hq
    cases TimerQueue.stepped hq with
    | tickTimers => exact ⟨h.bot, hqueue, h.same.of_moved rfl rfl (fun _ _ => Iff.rfl)
        h.same.frequency, h.cadenced.early, h.cadenced.late⟩
  | reinsert =>
    obtain ⟨q', hq, rfl⟩ := Option.map_eq_some_iff.mp hstep'
    have hqueue := queue_step h.queue hq
    cases TimerQueue.stepped hq with
    | @reinserted timer hcurrent =>
      refine ⟨h.bot, hqueue, h.same.reinsert hcurrent, h.cadenced.early, fun hfinished => ?_⟩
      obtain ⟨hcount, hlt, honly, hstarted⟩ := h.cadenced.late hfinished
      have hall : tb.queue.all = timer :: tb.queue.nextTimer := by
        simp [TimerQueue.all, hcurrent]
      rw [hall] at honly
      refine ⟨hcount, hlt, fun t ht => ?_, hstarted⟩
      rcases List.mem_cons.mp ht with rfl | ht
      · exact honly timer List.mem_cons_self
      · exact honly t (List.mem_cons_of_mem _ ht)
  | leave =>
    obtain ⟨q', hq, rfl⟩ := Option.map_eq_some_iff.mp hstep'
    have hqueue := queue_step h.queue hq
    cases TimerQueue.stepped hq with
    | left => exact ⟨h.bot, hqueue, h.same.of_moved rfl rfl (fun _ _ => Iff.rfl)
        h.same.frequency, h.cadenced.early, h.cadenced.late⟩

theorem timed {tb : TimedBot} (h : (timedSystem P isCentral).Reachable tb) : Timed P isCentral tb := by
  refine h.invariant ⟨⟨[], rfl⟩, ⟨[], rfl⟩, ⟨rfl, rfl, fun handle x => ?_, nofun⟩, fun _ => rfl, nofun⟩
    timed_preserved
  refine iff_of_false ?_ ?_
  · simp [timedSystem]
  · rintro ⟨t, ht, -⟩
    cases ht

/-- The bot of a timed run is one of a run without times. -/
theorem timed_bot {tb : TimedBot} (h : (timedSystem P isCentral).Reachable tb) :
    (system P isCentral).Reachable tb.bot :=
  (timed h).bot

theorem timed_queue {tb : TimedBot} (h : (timedSystem P isCentral).Reachable tb) :
    (TimerQueue.system Timer).Reachable tb.queue :=
  (timed h).queue

/-- **Cadence**: while the acknowledge timer runs, and between two passes, there is one plain
acknowledgement for every thirty seconds since the startup finished, whatever else happened. -/
theorem cadence {tb : TimedBot} (h : (timedSystem P isCentral).Reachable tb)
    (between : tb.queue.ticking = none)
    (runs : tb.bot.timers.nextTimer[tb.bot.acknowledgeTimer]? = some .acknowledge) :
    ∃ s, .started tb.bot.acknowledgeTimer 30 s ∈ tb.queue.log ∧
      plains tb.bot.log = (tb.queue.passed - s) / 30 := by
  have ht := timed h
  have hscheduled := TimerQueue.scheduled ht.queue
  obtain ⟨hcount, -, -, s, hs⟩ := ht.cadenced.late ((sound ht.bot).timer _ runs)
  obtain ⟨t, hmem, hhandle, honTick⟩ := (ht.same.timer _ _).mp runs
  have hfrequency : t.frequency = 30 := by rw [ht.same.frequency t hmem, honTick]; rfl
  have hnone : tb.queue.current = none := by
    by_contra hne
    exact hscheduled.busy hne between
  have hqueued : t ∈ tb.queue.nextTimer := TimerQueue.all_of_idle hnone ▸ hmem
  obtain ⟨s', hs', hticks⟩ := hscheduled.ticks_queued between hqueued (by omega)
  rw [hhandle, hfrequency] at hs' hticks
  obtain ⟨-, rfl⟩ := hscheduled.starts _ 30 s 30 s' hs hs'
  exact ⟨s, hs, hcount.trans hticks⟩

/-- The bot starts up at time 100 and acknowledges; a later pass comes at 170. -/
def acknowledgedTwice : List TimedLabel :=
  [.outside .ready 90, .outside (answeredWith 0 200) 95, .outside (answeredWith 1 200) 100,
    .tickTimers 131, .pop 1 131, .reinsert, .leave, .outside (answeredWith 2 200) 132,
    .tickTimers 170, .pop 1 170, .reinsert, .leave]

theorem cadence_acknowledgedTwice :
    ∃ tb, (timedSystem Messages.samplePlatform true).run {} acknowledgedTwice = some tb ∧
      ∃ s, .started tb.bot.acknowledgeTimer 30 s ∈ tb.queue.log ∧
        plains tb.bot.log = (tb.queue.passed - s) / 30 := by
  have hrun : ((timedSystem Messages.samplePlatform true).run {} acknowledgedTwice).map
      (fun tb => (tb.queue.ticking, tb.bot.timers.nextTimer[tb.bot.acknowledgeTimer]?)) =
        some (none, some .acknowledge) := by
    decide +kernel
  obtain ⟨tb, hrun, hstate⟩ := Option.map_eq_some_iff.mp hrun
  simp only [Prod.mk.injEq] at hstate
  exact ⟨tb, hrun, cadence ⟨_, hrun⟩ hstate.1 hstate.2⟩

end Lifecycle
