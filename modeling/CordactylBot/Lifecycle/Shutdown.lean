import CordactylBot.Lifecycle.Order

/-!
What ends the process, and with which status.

An API that refuses the token of a tenant should end the process with
`EXIT_INVALID_API_TOKEN`, the status systemd is told not to restart on, and a signal
should only be raised again after it was delivered. But inside `acknowledge_payload`
the name `exit` is the member function: `exit(EXIT_INVALID_API_TOKEN)` posts a shutdown
acknowledgement whose completion raises *signal* 24, and `send_acknowledgement` goes on
with the tasks of the reply.

* `faithful_iff` — the steps of a run are faithful exactly if none handles a reply that
  refuses the token in tenant mode.
* `refusal_raises` — a run that ends with a signal nobody sent.
-/

namespace Lifecycle

open Lifecycle.Bot

variable {P : Platform} {isCentral : Bool}

/-- The step handles an acknowledgement reply with status 401 in tenant mode. -/
def refuses (isCentral : Bool) (b : Bot) : Label → Bool
  | .completed n response _ _ =>
      match b.requests[n]? with
      | some (.acknowledgement _) => response.status = 401 && !isCentral
      | _ => false
  | _ => false

/-- What a step should do about ending the process: a refused token exits with
`EXIT_INVALID_API_TOKEN`, with no further acknowledgement posted and no task of the
reply processed, and only signals that were delivered have been raised. -/
structure Faithful (isCentral : Bool) (b : Bot) (l : Label) (b' : Bot) : Prop where
  exits : refuses isCentral b l = true →
    b'.status = .exited exitInvalidApiToken ∧ posts b'.log = posts b.log ∧
      b'.messages = b.messages
  raised : ∀ signal, .raised signal ∈ b'.log → .signalled signal ∈ b'.log

/-- The shutdown acknowledgements under way and the signals raised come from signals
that were delivered. -/
structure Caused (b : Bot) : Prop where
  requests : ∀ (n : Nat) signal, b.requests[n]? = some (.shutdown signal) → .signalled signal ∈ b.log
  raised : ∀ signal, .raised signal ∈ b.log → .signalled signal ∈ b.log

/-! ### Signals come from signals -/

/-- A step that sends no shutdown acknowledgement and raises nothing. -/
theorem Caused.extend {b b' : Bot} {new : List Event} (h : Caused b) (hlog : b'.log = new ++ b.log)
    (hrequests : ∀ (n : Nat) signal, b'.requests[n]? = some (.shutdown signal) →
      b.requests[n]? = some (.shutdown signal))
    (hnew : ∀ signal, .raised signal ∉ new) : Caused b' := by
  constructor
  · intro n signal hn
    rw [hlog]
    exact List.mem_append_right _ (h.requests n signal (hrequests n signal hn))
  · intro signal hmem
    rw [hlog]
    rcases List.mem_append.mp (hlog ▸ hmem) with he | he
    · exact absurd he (hnew signal)
    · exact List.mem_append_right _ (h.raised signal he)

theorem raised_not_mem_lines (lines : List String) (signal : Nat) :
    .raised signal ∉ lines.map Event.logged := by
  intro h
  obtain ⟨line, he⟩ := mem_lines h
  cases he

theorem raised_not_mem_quiet {new : List Event} (h : Quiet new) (signal : Nat) :
    .raised signal ∉ new := by
  intro he
  rcases h _ he with ⟨line, he⟩ | ⟨x, he⟩ <;> cases he

/-- A request that is sent and is no shutdown acknowledgement. -/
theorem shutdown_of_request {b : Bot} {r : Request} {n signal : Nat}
    (hr : ∀ s, r ≠ .shutdown s) (h : (b.request r).requests[n]? = some (.shutdown signal)) :
    b.requests[n]? = some (.shutdown signal) := by
  rcases request_cases h with ⟨-, he⟩ | h
  · exact absurd he.symm (hr signal)
  · exact h

theorem Caused.tail {isStartup : Bool} {b b' : Bot} (h : Caused b) (tail : Tail isStartup b b') :
    Caused b' := by
  obtain ⟨lines, hlog⟩ := tail.log
  apply h.extend hlog
  · intro n signal hn
    rcases tail.requests n _ hn with hn | he
    · exact hn
    · cases he
  · exact raised_not_mem_lines lines

theorem Caused.replied {b : Bot} {n : Nat} {response : HttpRequestCompletion} (h : Caused b) :
    Caused ((b.taken n).replied response) := by
  apply h.extend (replied_log b n response)
  · exact fun m signal hm => (taken_cases hm).2
  · intro signal he
    rcases List.mem_append.mp he with he | he
    · exact raised_not_mem_lines _ _ (List.mem_reverse.mp he)
    · cases List.mem_singleton.mp he

/-- An acknowledgement is posted that is none of the shutdown. -/
theorem Caused.posted {b : Bot} {kind : Kind} {r : Request} (h : Caused b)
    (hr : ∀ s, r ≠ .shutdown s) : Caused (b.posted kind r) := by
  apply h.extend
  · exact (List.singleton_append ..).symm
  · exact fun n signal hn => shutdown_of_request hr hn
  · simp

/-- A signal is raised because its shutdown was posted for it. -/
theorem Caused.raise {b : Bot} {n signal : Nat} {response : HttpRequestCompletion} (h : Caused b)
    (hn : b.requests[n]? = some (.shutdown signal)) :
    Caused ((b.taken n).raise signal response) := by
  have delivered := h.requests n signal hn
  constructor
  · intro m s hm
    exact List.mem_cons_of_mem _ (List.mem_cons_of_mem _ (h.requests m s (taken_cases hm).2))
  · intro s hmem
    refine List.mem_cons_of_mem _ (List.mem_cons_of_mem _ ?_)
    rcases List.mem_cons.mp hmem with he | he
    · cases he
      exact delivered
    · rcases List.mem_cons.mp he with he | he
      · cases he
      · exact h.raised s he

/-- A signal is handled: its shutdown is posted for it. -/
theorem Caused.signalled {b : Bot} (signal : Nat) (h : Caused b) :
    Caused { (b.interrupted signal).posted .shutdown (.shutdown signal) with
      timers := (b.interrupted signal).timers.startTimer .timeout } := by
  have delivered : .signalled signal ∈ (b.interrupted signal).log :=
    List.mem_cons_of_mem _ List.mem_cons_self
  constructor
  · intro n s hn
    refine List.mem_cons_of_mem _ ?_
    rcases request_cases hn with ⟨-, he⟩ | hn
    · cases he
      exact delivered
    · exact List.mem_cons_of_mem _ (List.mem_cons_of_mem _ (h.requests n s hn))
  · intro s hmem
    have before : .raised s ∈ b.log := by
      rcases List.mem_cons.mp hmem with he | he
      · cases he
      · rcases List.mem_cons.mp he with he | he
        · cases he
        · rcases List.mem_cons.mp he with he | he
          · cases he
          · exact he
    exact List.mem_cons_of_mem _ (List.mem_cons_of_mem _ (List.mem_cons_of_mem _
      (h.raised s before)))

theorem caused_step {b b' : Bot} {l : Label} (h : Caused b) (hs : Stepped P isCentral b l b')
    (accepted : refuses isCentral b l = false) : Caused b' := by
  cases hs with
  | ready first =>
    apply h.extend
    · exact (List.nil_append b.log).symm
    · exact fun n signal hn => shutdown_of_request (by simp) hn
    · simp
  | readyAgain again => exact h
  | settled hn hr payload quiet =>
    apply h.extend rfl
    · exact fun m signal hm => (taken_cases hm).2
    · exact raised_not_mem_quiet quiet
  | @fetched n response now storage acknowledge new hn filled payload quiet =>
    have before : Caused { b.taken n with acknowledge, log := new ++ b.log, startup := .acknowledging } := by
      apply h.extend rfl
      · exact fun m signal hm => (taken_cases hm).2
      · exact raised_not_mem_quiet quiet
    exact before.posted (by simp)
  | replied hn valid tail delivers => exact h.replied.tail tail
  | refused hn invalid tail delivers =>
    simp only [refuses, hn, invalid] at accepted
    simp at accepted
  | raised hn => exact h.raise hn
  | @resumed call result now storage w _ hstep tail messages =>
    have before : Caused { b with messages := w } := ⟨h.requests, h.raised⟩
    exact before.tail tail
  | created hstep => exact ⟨h.requests, h.raised⟩
  | reportAnswered hstep => exact ⟨h.requests, h.raised⟩
  | dropped deleted => exact ⟨h.requests, h.raised⟩
  | acknowledged due live => exact h.posted (by simp)
  | refetched due live =>
    apply h.extend
    · exact (List.nil_append b.log).symm
    · exact fun n signal hn => shutdown_of_request (by simp) hn
    · simp
  | timedOut due live =>
    apply h.extend
    · exact (List.singleton_append ..).symm
    · exact fun n signal hn => hn
    · simp
  | @signalled signal => exact h.signalled signal

/-- A step that handles a refusal posts an acknowledgement. -/
theorem refuses_posts {b : Bot} {l : Label} (h : refuses isCentral b l = true) :
    acknowledgementOf P isCentral b l = some .shutdown := by
  cases l with
  | completed n response now storage =>
    simp only [refuses] at h
    split at h
    · rename_i hn
      have invalid : response.status = 401 ∧ isCentral = false := by simpa using h
      simp only [acknowledgementOf, hn, if_pos invalid]
    · cases h
  | _ => cases h

/-- **The cause of a shutdown.** The steps of a run are faithful exactly if none of them
handles a reply that refuses the token in tenant mode. -/
theorem faithful_iff (P : Platform) (isCentral : Bool) (labels : List Label) :
    (system P isCentral).Along (Faithful isCentral) (system P isCentral).start labels ↔
      (system P isCentral).Along (fun b l _ => refuses isCentral b l = false)
        (system P isCentral).start labels := by
  constructor
  · intro along
    apply along.mono (P := Sound) _ _ sound_start
    · intro b l b' h hstep _
      exact sound_step h (step_cases h.payload hstep)
    · intro b l b' h hstep faithful
      cases hrefuses : refuses isCentral b l with
      | false => rfl
      | true =>
        have hs := step_cases h.payload hstep
        have unposted := (faithful.exits hrefuses).2.1
        rw [(logged_step hs).posts, refuses_posts hrefuses] at unposted
        simp at unposted
  · intro along
    have kept : ∀ b l b', Sound b ∧ Caused b → (system P isCentral).step b l = some b' →
        refuses isCentral b l = false → Sound b' ∧ Caused b' := by
      intro b l b' h hstep accepted
      have hs := step_cases h.1.payload hstep
      exact ⟨sound_step h.1 hs, caused_step h.2 hs accepted⟩
    have start : Sound (system P isCentral).start ∧ Caused (system P isCentral).start := by
      refine ⟨sound_start, ?_⟩
      constructor
      · intro n signal hn
        simp [system] at hn
      · intro signal hmem
        cases hmem
    apply along.mono (P := fun b => Sound b ∧ Caused b) kept _ start
    intro b l b' h hstep accepted
    constructor
    · intro hrefuses
      rw [accepted] at hrefuses
      cases hrefuses
    · exact (kept b l b' h hstep accepted).2.raised

/-- Every step of every run is faithful. -/
def AlwaysFaithful : Prop :=
  ∀ P isCentral labels,
    (system P isCentral).Along (Faithful isCentral) (system P isCentral).start labels

/-- A tenant's startup acknowledgement is answered with 401. -/
def refusedAtStartup : Bot :=
  ((system Messages.samplePlatform false).run {}
    [.ready, answeredWith 0 200, answeredWith 1 401]).get (by decide +kernel)

/-- The shutdown acknowledgement after it is answered, too. -/
def raisedAfterRefusal : Bot :=
  ((system Messages.samplePlatform false).step refusedAtStartup (answeredWith 2 401)).get
    (by decide +kernel)

example : refusedAtStartup.status = .running ∧ refusedAtStartup.startup = .finished ∧
    posts refusedAtStartup.log = [.startup, .shutdown] ∧
    raisedAfterRefusal.status = .killed exitInvalidApiToken := by
  decide +kernel

/-- **A refused token raises a signal nobody sent**, and the process does not exit with
`EXIT_INVALID_API_TOKEN`. -/
theorem refusal_raises : ¬ AlwaysFaithful := by
  intro h
  have hrun : (system Messages.samplePlatform false).run {}
      [.ready, answeredWith 0 200, answeredWith 1 401] = some refusedAtStartup :=
    (Option.some_get _).symm
  have hstep : (system Messages.samplePlatform false).step refusedAtStartup (answeredWith 2 401) =
      some raisedAfterRefusal := by
    rw [raisedAfterRefusal, Option.some_get]
  have along := h Messages.samplePlatform false
    ([.ready, answeredWith 0 200, answeredWith 1 401] ++ [answeredWith 2 401])
  have signalled := (along.last hrun hstep).raised 24 (by decide +kernel)
  exact absurd signalled (by decide +kernel)

end Lifecycle
