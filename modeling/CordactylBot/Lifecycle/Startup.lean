import CordactylBot.Lifecycle.Steps

/-!
Where the startup coroutine stands.

Of the requests the coroutine waits for at most one is outstanding, and it is the one
of the point where the coroutine is suspended. Until it posts its acknowledgement,
nothing but shutdown acknowledgements has been posted, and until it has finished no
acknowledge timer runs.

* `sound` — this holds in every reachable state, and no method has thrown.
-/

namespace Lifecycle

open Lifecycle.Bot

variable {P : Platform} {isCentral : Bool}

/-- The point where the startup coroutine waits for the request, if it does. -/
def Request.phase? : Request → Option Startup
  | .fetch true => some .fetching
  | .acknowledgement true => some .acknowledging
  | _ => none

structure Sound (b : Bot) : Prop where
  payload : b.acknowledge.payload.Mergeable
  request : ∃ k, ∀ (n : Nat) (r : Request) p, b.requests[n]? = some r → r.phase? = some p →
    n = k ∧ b.startup = p
  early : b.startup = .notReady ∨ b.startup = .fetching →
    ∀ kind body, .posted kind body ∈ b.log → kind = .shutdown
  timer : ∀ handle : Nat, b.timers.nextTimer[handle]? = some .acknowledge → b.startup = .finished
  clean : ∀ e, .escaped e ∉ b.log

/-- No request of the startup coroutine is outstanding. -/
def Idle (b : Bot) : Prop :=
  ∀ (n : Nat) (r : Request), b.requests[n]? = some r → r.phase? = none

/-- The coroutine waits for nothing once its request has completed. -/
theorem Sound.idle_taken {b : Bot} {n : Nat} {r : Request} (h : Sound b)
    (hn : b.requests[n]? = some r) (hr : r.phase? ≠ none) : Idle (b.taken n) := by
  obtain ⟨k, hk⟩ := h.request
  obtain ⟨p, hp⟩ := Option.ne_none_iff_exists'.mp hr
  intro m r' hm
  obtain ⟨hne, hm⟩ := taken_cases hm
  cases hphase : r'.phase? with
  | none => rfl
  | some p' => exact absurd ((hk m r' p' hm hphase).1.trans (hk n r p hn hp).1.symm) hne

/-- The coroutine waits for nothing where it has no request. -/
theorem Sound.idle {b : Bot} (h : Sound b) (hfetching : b.startup ≠ .fetching)
    (hacknowledging : b.startup ≠ .acknowledging) : Idle b := by
  obtain ⟨k, hk⟩ := h.request
  intro n r hn
  cases hphase : r.phase? with
  | none => rfl
  | some p =>
    have hstartup := (hk n r p hn hphase).2
    have : p = .fetching ∨ p = .acknowledging := by
      unfold Request.phase? at hphase
      split at hphase <;> simp_all
    rcases this with rfl | rfl
    · exact absurd hstartup hfetching
    · exact absurd hstartup hacknowledging

/-! ### Steps keep the order of the startup -/

/-- A step that leaves the startup coroutine where it is. -/
theorem Sound.stay {b b' : Bot} {new : List Event} (h : Sound b)
    (payload : b'.acknowledge.payload.Mergeable)
    (hrequests : ∀ (n : Nat) (r : Request), b'.requests[n]? = some r →
      b.requests[n]? = some r ∨ r.phase? = none)
    (hstartup : b'.startup = b.startup)
    (htimers : ∀ handle : Nat, b'.timers.nextTimer[handle]? = some .acknowledge →
      b.timers.nextTimer[handle]? = some .acknowledge)
    (hlog : b'.log = new ++ b.log)
    (hnew : ∀ e ∈ new, (∀ x, e ≠ .escaped x) ∧
      ∀ kind body, e = .posted kind body → kind = .shutdown ∨ b.startup = .finished) : Sound b' := by
  constructor
  · exact payload
  · obtain ⟨k, hk⟩ := h.request
    refine ⟨k, fun n r p hn hp => ?_⟩
    rw [hstartup]
    rcases hrequests n r hn with hn | hnone
    · exact hk n r p hn hp
    · rw [hnone] at hp
      cases hp
  · intro hearly kind body hmem
    rw [hstartup] at hearly
    rcases List.mem_append.mp (hlog ▸ hmem) with he | he
    · rcases (hnew _ he).2 kind body rfl with hkind | hfinished
      · exact hkind
      · rw [hfinished] at hearly
        simp at hearly
    · exact h.early hearly kind body he
  · intro handle ht
    exact hstartup ▸ h.timer handle (htimers handle ht)
  · intro e he
    rcases List.mem_append.mp (hlog ▸ he) with he | he
    · exact (hnew _ he).1 e rfl
    · exact h.clean e he

/-- A step that takes the startup coroutine to another point. -/
theorem Sound.advance {b b' : Bot} {new : List Event} {k : Nat} (h : Sound b)
    (payload : b'.acknowledge.payload.Mergeable)
    (hrequests : ∀ (n : Nat) (r : Request) p, b'.requests[n]? = some r → r.phase? = some p →
      n = k ∧ b'.startup = p)
    (hearly : b'.startup = .notReady ∨ b'.startup = .fetching →
      (b.startup = .notReady ∨ b.startup = .fetching) ∧ ∀ e ∈ new, postedKind e = none)
    (htimers : ∀ handle : Nat, b'.timers.nextTimer[handle]? = some .acknowledge →
      b'.startup = .finished)
    (hlog : b'.log = new ++ b.log) (hnew : ∀ e ∈ new, ∀ x, e ≠ .escaped x) : Sound b' := by
  constructor
  · exact payload
  · exact ⟨k, hrequests⟩
  · intro hstartup kind body hmem
    obtain ⟨hbefore, hquiet⟩ := hearly hstartup
    rcases List.mem_append.mp (hlog ▸ hmem) with he | he
    · cases hquiet _ he
    · exact h.early hbefore kind body he
  · exact htimers
  · intro e he
    rcases List.mem_append.mp (hlog ▸ he) with he | he
    · exact hnew _ he e rfl
    · exact h.clean e he

theorem mem_lines {lines : List String} {e : Event} (h : e ∈ lines.map Event.logged) :
    ∃ line, e = .logged line := by
  obtain ⟨line, -, rfl⟩ := List.mem_map.mp h
  exact ⟨line, rfl⟩

/-- The rest of a coroutine, when the startup coroutine waits for nothing else if it
is the one that goes on. -/
theorem Sound.tail {isStartup : Bool} {b b' : Bot} (h : Sound b) (tail : Tail isStartup b b')
    (startup : isStartup = true → Idle b ∧ b.startup ≠ .finished) : Sound b' := by
  obtain ⟨lines, hlog⟩ := tail.log
  have payload : b'.acknowledge.payload.Mergeable := tail.acknowledge ▸ h.payload
  have logged : ∀ e ∈ lines.map Event.logged, ∀ x, e ≠ .escaped x := by
    intro e he x
    obtain ⟨line, rfl⟩ := mem_lines he
    exact Event.noConfusion
  rcases tail.startup with hstartup | ⟨hgoes, hpoint⟩
  · by_cases hfinished : b.startup = .finished
    · obtain ⟨k, hk⟩ := h.request
      apply h.advance
      · exact payload
      · intro n r p hn hp
        rcases tail.requests n r hn with hn | rfl
        · exact hstartup ▸ hk n r p hn hp
        · cases hp
      · intro hearly
        rw [hstartup, hfinished] at hearly
        simp at hearly
      · exact fun _ _ => hstartup.trans hfinished
      · exact hlog
      · exact logged
    · apply h.stay
      · exact payload
      · intro n r hn
        rcases tail.requests n r hn with hn | rfl
        · exact .inl hn
        · exact .inr rfl
      · exact hstartup
      · intro handle ht
        rcases tail.timers handle ht with ht | hnow
        · exact ht
        · exact absurd (hstartup.symm.trans hnow) hfinished
      · exact hlog
      · intro e he
        obtain ⟨line, rfl⟩ := mem_lines he
        exact ⟨fun _ => Event.noConfusion, fun _ _ => Event.noConfusion⟩
  · have idle : Idle b ∧ b.startup ≠ .finished := by
      rcases hgoes with hs | ⟨call, hcall⟩
      · exact startup hs
      · rw [hcall]
        exact ⟨h.idle (by simp [hcall]) (by simp [hcall]), by simp⟩
    have late : ¬ (b'.startup = .notReady ∨ b'.startup = .fetching) := by
      rcases hpoint with hp | ⟨call, hp⟩ <;> simp [hp]
    apply h.advance (k := 0)
    · exact payload
    · intro n r p hn hp
      rcases tail.requests n r hn with hn | rfl
      · rw [idle.1 n r hn] at hp
        cases hp
      · cases hp
    · exact fun hearly => absurd hearly late
    · intro handle ht
      rcases tail.timers handle ht with ht | hnow
      · exact absurd (h.timer handle ht) idle.2
      · exact hnow
    · exact hlog
    · exact logged

/-- A completion of the reply is logged. -/
theorem Sound.replied {b : Bot} {n : Nat} {response : HttpRequestCompletion} (h : Sound b) :
    Sound ((b.taken n).replied response) := by
  have hlog : ((b.taken n).replied response).log =
      (((AcknowledgePayload.statusLines response).map Event.logged).reverse ++
        [.replied response]) ++ b.log := by
    rw [List.append_assoc]
    rfl
  apply h.stay
  · exact h.payload
  · exact fun m r hm => .inl (taken_cases hm).2
  · rfl
  · exact fun _ ht => ht
  · exact hlog
  · intro e he
    rcases List.mem_append.mp he with he | he
    · obtain ⟨line, rfl⟩ := mem_lines (List.mem_reverse.mp he)
      exact ⟨fun _ => Event.noConfusion, fun _ _ => Event.noConfusion⟩
    · rw [List.mem_singleton.mp he]
      exact ⟨fun _ => Event.noConfusion, fun _ _ => Event.noConfusion⟩

theorem Sound.taken {b : Bot} {n : Nat} (h : Sound b) : Sound (b.taken n) := by
  obtain ⟨k, hk⟩ := h.request
  exact ⟨h.payload, ⟨k, fun m r p hm => hk m r p (taken_cases hm).2⟩, h.early, h.timer, h.clean⟩

theorem Sound.acknowledging {b : Bot} {n : Nat} (h : Sound b)
    (hn : b.requests[n]? = some (.acknowledgement true)) : b.startup = .acknowledging := by
  obtain ⟨k, hk⟩ := h.request
  exact (hk n _ _ hn rfl).2

/-- An acknowledgement is posted that is not the one of the startup. -/
theorem Sound.posted {b : Bot} {kind : Kind} {r : Request} (h : Sound b) (hr : r.phase? = none)
    (hkind : kind = .shutdown ∨ b.startup = .finished) : Sound (b.posted kind r) := by
  have hlog : (b.posted kind r).log = [.posted kind (b.acknowledge.payload.put "application"
    (AcknowledgePayload.applicationValue b.acknowledge.currentApplication))] ++ b.log := rfl
  apply h.stay
  · exact trivial
  · intro n r' hn
    rcases request_cases hn with ⟨-, rfl⟩ | hn
    · exact .inr hr
    · exact .inl hn
  · rfl
  · exact fun _ ht => ht
  · exact hlog
  · intro e he
    rw [List.mem_singleton.mp he]
    refine ⟨fun _ => Event.noConfusion, fun k body heq => ?_⟩
    cases heq
    exact hkind

theorem quiet_not_posted {new : List Event} (h : Quiet new) :
    ∀ e ∈ new, (∀ x, e ≠ .escaped x) ∧ postedKind e = none := by
  intro e he
  rcases h e he with ⟨line, rfl⟩ | ⟨x, rfl⟩
  · exact ⟨fun _ => Event.noConfusion, rfl⟩
  · exact ⟨fun _ => Event.noConfusion, rfl⟩

/-- A request of the coroutine completes, and the next one is sent from another point. -/
theorem Sound.requested {b b' : Bot} {r : Request} {p : Startup} (h : Sound b)
    (new : List Event) (idle : Idle b) (hr : r.phase? = some p) (payload : b'.acknowledge.payload.Mergeable)
    (hrequests : ∀ (n : Nat) (r' : Request), b'.requests[n]? = some r' →
      (n = b.nextRequest ∧ r' = r) ∨ b.requests[n]? = some r')
    (hstartup : b'.startup = p) (unfinished : b.startup ≠ .finished)
    (hearly : p = .fetching → b.startup = .notReady ∧ ∀ e ∈ new, postedKind e = none)
    (htimers : b'.timers = b.timers) (hlog : b'.log = new ++ b.log)
    (hnew : ∀ e ∈ new, ∀ x, e ≠ .escaped x) : Sound b' := by
  have point : p = .fetching ∨ p = .acknowledging := by
    unfold Request.phase? at hr
    split at hr <;> simp_all
  apply h.advance
  · exact payload
  · intro n r' p' hn hp
    rcases hrequests n r' hn with ⟨hk, rfl⟩ | hn
    · exact ⟨hk, hstartup.trans (Option.some.inj (hr.symm.trans hp))⟩
    · rw [idle n r' hn] at hp
      cases hp
  · intro h'
    rw [hstartup] at h'
    rcases point with rfl | rfl
    · obtain ⟨hbefore, hquiet⟩ := hearly rfl
      exact ⟨.inl hbefore, hquiet⟩
    · simp at h'
  · intro handle ht
    exact absurd (h.timer handle (htimers ▸ ht)) unfinished
  · exact hlog
  · exact hnew

/-- The first ready event starts the coroutine. -/
theorem Sound.ready {b : Bot} (h : Sound b) (first : b.startup = .notReady) :
    Sound ({ b with startup := .fetching }.request (.fetch true)) := by
  apply h.requested [] (r := .fetch true) (p := .fetching)
  · exact h.idle (by simp [first]) (by simp [first])
  · rfl
  · exact h.payload
  · exact fun n r hn => request_cases hn
  · rfl
  · simp [first]
  · exact fun _ => ⟨first, by simp⟩
  · rfl
  · rfl
  · simp

/-- A fetch or an edit completes and the coroutine does not go on. -/
theorem Sound.settled {b : Bot} {n : Nat} {acknowledge : AcknowledgePayload} {new : List Event}
    (h : Sound b) (payload : acknowledge.payload = b.acknowledge.payload) (quiet : Quiet new) :
    Sound { b.taken n with acknowledge, log := new ++ b.log } := by
  have hquiet := quiet_not_posted quiet
  apply h.stay
  · exact payload ▸ h.payload
  · exact fun m r' hm => .inl (taken_cases hm).2
  · rfl
  · exact fun _ ht => ht
  · rfl
  · intro e he
    refine ⟨(hquiet e he).1, fun kind body heq => ?_⟩
    have := (hquiet e he).2
    rw [heq] at this
    cases this

/-- The coroutine has its application and posts its acknowledgement. -/
theorem Sound.fetched {b : Bot} {n : Nat} {acknowledge : AcknowledgePayload} {new : List Event}
    (h : Sound b) (hn : b.requests[n]? = some (.fetch true)) (quiet : Quiet new) :
    Sound ({ b.taken n with acknowledge, log := new ++ b.log, startup := .acknowledging }.posted
      .startup (.acknowledgement true)) := by
  obtain ⟨k, hk⟩ := h.request
  have hstartup : b.startup = .fetching := (hk n _ _ hn rfl).2
  apply h.taken.requested _ (r := .acknowledgement true) (p := .acknowledging)
  · exact h.idle_taken hn (by simp [Request.phase?])
  · rfl
  · exact trivial
  · exact fun m r hm => request_cases hm
  · rfl
  · simp [Bot.taken, hstartup]
  · intro hfetching
    cases hfetching
  · rfl
  · exact (List.cons_append ..).symm
  · intro e he x
    rcases List.mem_cons.mp he with rfl | he
    · exact Event.noConfusion
    · exact (quiet_not_posted quiet e he).1 x

/-- The token is refused and the shutdown posted, then the coroutine may go on. -/
theorem Sound.refused {b b' : Bot} {n : Nat} {isStartup : Bool} {response : HttpRequestCompletion}
    (h : Sound b) (hn : b.requests[n]? = some (.acknowledgement isStartup))
    (tail : Tail isStartup
      (((b.taken n).replied response).posted .shutdown (.shutdown exitInvalidApiToken)) b') :
    Sound b' := by
  apply (h.replied.posted rfl (.inl rfl)).tail tail
  rintro rfl
  constructor
  · intro m r hm
    rcases request_cases hm with ⟨-, rfl⟩ | hm
    · rfl
    · exact h.idle_taken hn (by simp [Request.phase?]) m r hm
  · simp [Bot.posted, Bot.request, Bot.replied, Bot.logLines, Bot.emit, Bot.taken, h.acknowledging hn]

/-- The signal handler interrupts and posts the shutdown. -/
theorem Sound.signalled {b : Bot} (signal : Nat) (h : Sound b) :
    Sound { (b.interrupted signal).posted .shutdown (.shutdown signal) with
      timers := (b.interrupted signal).timers.startTimer .timeout } := by
  have interrupted : Sound (b.interrupted signal) := by
    apply h.stay
    · exact h.payload
    · exact fun _ _ hn => .inl hn
    · rfl
    · exact fun _ ht => ht
    · exact (List.append_assoc [Event.logged _] [.signalled signal] b.log).symm
    · simp
  have posted : Sound ((b.interrupted signal).posted .shutdown (.shutdown signal)) :=
    interrupted.posted rfl (.inl rfl)
  refine ⟨posted.payload, posted.request, posted.early, fun t ht => ?_, posted.clean⟩
  rcases Timers.startTimer_cases ht with ht | ht
  · cases ht
  · exact h.timer t ht

theorem sound_step {b b' : Bot} {l : Label} (h : Sound b) (hs : Stepped P isCentral b l b') :
    Sound b' := by
  cases hs with
  | ready first => exact h.ready first
  | readyAgain again => exact h
  | settled hn hr payload quiet => exact h.settled payload quiet
  | fetched hn filled payload quiet => exact h.fetched hn quiet
  | replied hn valid tail delivers =>
    apply h.replied.tail tail
    rintro rfl
    exact ⟨h.idle_taken hn (by simp [Request.phase?]), by
      simp [Bot.replied, Bot.logLines, Bot.emit, Bot.taken, h.acknowledging hn]⟩
  | refused hn invalid tail delivers => exact h.refused hn tail
  | @raised n signal response now storage hn =>
    apply h.stay
    · exact h.payload
    · exact fun m r hm => .inl (taken_cases hm).2
    · rfl
    · exact fun _ ht => ht
    · exact (List.append_assoc [Event.raised signal] [.logged (shutdownLine response)] b.log).symm
    · simp
  | @resumed call result now storage w _ hstep tail messages =>
    have unmoved : Sound { b with messages := w } :=
      ⟨h.payload, h.request, h.early, h.timer, h.clean⟩
    apply unmoved.tail tail
    intro hstartup
    cases hstartup
  | created hstep => exact ⟨h.payload, h.request, h.early, h.timer, h.clean⟩
  | reportAnswered hstep => exact ⟨h.payload, h.request, h.early, h.timer, h.clean⟩
  | dropped deleted =>
    exact ⟨h.payload, h.request, h.early, fun t ht => h.timer t (Timers.of_drop ht), h.clean⟩
  | acknowledged due live => exact h.posted rfl (.inr (h.timer _ due))
  | refetched due live =>
    apply h.stay
    · exact h.payload
    · intro n r hn
      rcases request_cases hn with ⟨-, rfl⟩ | hn
      · exact .inr rfl
      · exact .inl hn
    · rfl
    · exact fun _ ht => ht
    · exact (List.nil_append b.log).symm
    · simp
  | timedOut due live =>
    apply h.stay
    · exact h.payload
    · exact fun _ _ hn => .inl hn
    · rfl
    · exact fun _ ht => ht
    · rfl
    · simp
  | @signalled signal => exact h.signalled signal

theorem sound_start : Sound (system P isCentral).start where
  payload := trivial
  request := ⟨0, fun n r p hn => by simp [system] at hn⟩
  early _ _ _ h := by cases h
  timer handle h := by simp [system] at h
  clean _ h := by cases h

theorem sound {b : Bot} (hb : (system P isCentral).Reachable b) : Sound b :=
  hb.invariant sound_start fun _ _ _ h hstep => sound_step h (step_cases h.payload hstep)

end Lifecycle
