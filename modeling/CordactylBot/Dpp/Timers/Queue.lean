import CordactylBot.Dpp.Timers
import CordactylBot.Library.Transition
import Mathlib.Data.List.Nodup

/-!
When the timers of a cluster tick (`cluster/timer.cpp`).

`tick_timers` reads the clock once and then pops timers that are due at that time. A timer
that was not stopped ticks, and goes back with its next time one period on, so that it may
be popped again in the same pass; a stopped one is dropped. While a timer ticks and between
any two turns of the loop, timers can be started and stopped. A tick that throws, which loses
its timer and ends the pass, is left out.

What a run logs is newest first.
-/

/-- `dpp::timer_t`. -/
structure ClusterTimer (τ : Type) where
  handle : Nat
  nextTick : Nat
  frequency : Nat
  onTick : τ
deriving DecidableEq, Repr

inductive TimerEvent where
  | started (handle frequency now : Nat)
  | ticked (handle now : Nat)
  /-- `on_stop` was called -/
  | stopped (handle : Nat)
deriving DecidableEq, Repr

def TimerEvent.handle : TimerEvent → Nat
  | .started handle _ _ => handle
  | .ticked handle _ => handle
  | .stopped handle => handle

/-- The timers of a cluster with their times. `ticking` is the time a pass under way has read,
`current` the timer it has popped, and `passed` the time of the last pass. The priority queue
is the list of its timers; which of two it pops that are due at the same time is open. -/
structure TimerQueue (τ : Type) where
  nextHandle : Nat := 1
  nextTimer : List (ClusterTimer τ) := []
  deletedTimers : List Nat := []
  ticking : Option Nat := none
  current : Option (ClusterTimer τ) := none
  clock : Nat := 0
  passed : Nat := 0
  log : List TimerEvent := []

inductive TimerLabel (τ : Type) where
  | start (onTick : τ) (frequency now : Nat)
  | stop (handle : Nat)
  | tickTimers (now : Nat)
  | pop (handle : Nat)
  | reinsert
  | leave

namespace TimerQueue

variable {τ : Type}

/-- `start_timer`. -/
def startTimer (q : TimerQueue τ) (onTick : τ) (frequency now : Nat) : TimerQueue τ :=
  { q with
    clock := now
    nextHandle := q.nextHandle + 1
    nextTimer := ⟨q.nextHandle, now + frequency, frequency, onTick⟩ :: q.nextTimer
    log := .started q.nextHandle frequency now :: q.log }

/-- `stop_timer`. -/
def stopTimer (q : TimerQueue τ) (handle : Nat) : TimerQueue τ :=
  { q with deletedTimers := q.deletedTimers.insert handle }

/-- `tick_timers` looks at the clock. -/
def tickTimers (q : TimerQueue τ) (now : Nat) : TimerQueue τ :=
  { q with clock := now, ticking := if q.nextTimer.isEmpty then none else some now }

def popped (q : TimerQueue τ) (handle : Nat) : List (ClusterTimer τ) :=
  q.nextTimer.filter (·.handle ≠ handle)

/-- A timer is popped and ticks. -/
def tick (q : TimerQueue τ) (timer : ClusterTimer τ) (now : Nat) : TimerQueue τ :=
  { q with
    nextTimer := q.popped timer.handle
    current := some timer
    log := .ticked timer.handle now :: q.log }

/-- A timer is popped that was stopped. -/
def drop (q : TimerQueue τ) (timer : ClusterTimer τ) : TimerQueue τ :=
  { q with
    nextTimer := q.popped timer.handle
    deletedTimers := q.deletedTimers.filter (· ≠ timer.handle)
    log := .stopped timer.handle :: q.log }

/-- A timer that has ticked goes back. -/
def reinsert (q : TimerQueue τ) (timer : ClusterTimer τ) : TimerQueue τ :=
  { q with
    current := none
    nextTimer := { timer with nextTick := timer.nextTick + timer.frequency } :: q.nextTimer }

/-- The timers as they stand once the one that ticks is back. -/
def upcoming (q : TimerQueue τ) : List (ClusterTimer τ) :=
  (q.current.map fun timer =>
    { timer with nextTick := timer.nextTick + timer.frequency }).toList ++ q.nextTimer

/-- The timer is at the top of the queue. -/
def Top (q : TimerQueue τ) (timer : ClusterTimer τ) : Prop :=
  ∀ t ∈ q.nextTimer, timer.nextTick ≤ t.nextTick

instance (q : TimerQueue τ) (timer : ClusterTimer τ) : Decidable (q.Top timer) :=
  inferInstanceAs (Decidable (∀ t ∈ q.nextTimer, _))

/-- The loop of `tick_timers` looks at the top of the queue after every turn. When the last
timer was dropped there is none, and what `top` returns is undefined. -/
def step (q : TimerQueue τ) : TimerLabel τ → Option (TimerQueue τ)
  | .start onTick frequency now =>
      if q.clock ≤ now then some (q.startTimer onTick frequency now) else none
  | .stop handle => some (q.stopTimer handle)
  | .tickTimers now =>
      if q.ticking = none ∧ q.clock ≤ now then some (q.tickTimers now) else none
  | .pop handle =>
      match q.ticking, q.current, q.nextTimer.find? (·.handle = handle) with
      | some now, none, some timer =>
          if timer.nextTick ≤ now ∧ q.Top timer then
            if handle ∈ q.deletedTimers then some (q.drop timer) else some (q.tick timer now)
          else none
      | _, _, _ => none
  | .reinsert => q.current.map q.reinsert
  | .leave =>
      match q.ticking, q.current with
      | some now, none =>
          if q.nextTimer ≠ [] ∧ ∀ t ∈ q.nextTimer, now < t.nextTick then
            some { q with ticking := none, passed := now }
          else none
      | _, _ => none

def system (τ : Type) : Transition.System (TimerQueue τ) (TimerLabel τ) where
  start := {}
  step := step

/-- **Step inversion.** Everything a step can do. -/
inductive Stepped (q : TimerQueue τ) : TimerLabel τ → TimerQueue τ → Prop where
  | start {onTick : τ} {frequency now : Nat} : q.clock ≤ now →
      Stepped q (.start onTick frequency now) (q.startTimer onTick frequency now)
  | stop {handle : Nat} : Stepped q (.stop handle) (q.stopTimer handle)
  | tickTimers {now : Nat} : q.ticking = none → q.clock ≤ now →
      Stepped q (.tickTimers now) (q.tickTimers now)
  | ticked {timer : ClusterTimer τ} {now : Nat} : q.ticking = some now → q.current = none →
      timer ∈ q.nextTimer → timer.nextTick ≤ now → q.Top timer → timer.handle ∉ q.deletedTimers →
      Stepped q (.pop timer.handle) (q.tick timer now)
  | dropped {timer : ClusterTimer τ} {now : Nat} : q.ticking = some now → q.current = none →
      timer ∈ q.nextTimer → timer.nextTick ≤ now → q.Top timer → timer.handle ∈ q.deletedTimers →
      Stepped q (.pop timer.handle) (q.drop timer)
  | reinserted {timer : ClusterTimer τ} : q.current = some timer →
      Stepped q .reinsert (q.reinsert timer)
  | left {now : Nat} : q.ticking = some now → q.current = none →
      (∀ t ∈ q.nextTimer, now < t.nextTick) →
      Stepped q .leave { q with ticking := none, passed := now }

theorem stepped {q q' : TimerQueue τ} {l : TimerLabel τ} (h : step q l = some q') :
    Stepped q l q' := by
  cases l with
  | start onTick frequency now =>
    simp only [step] at h
    split at h
    · rename_i hclock
      cases h
      exact .start hclock
    · cases h
  | stop handle =>
    cases h
    exact .stop
  | tickTimers now =>
    simp only [step] at h
    split at h
    · rename_i hidle
      cases h
      exact .tickTimers hidle.1 hidle.2
    · cases h
  | pop handle =>
    simp only [step] at h
    split at h
    · rename_i now timer hticking hcurrent hfind
      have hmem := List.mem_of_find?_eq_some hfind
      obtain rfl : timer.handle = handle := by simpa using List.find?_some hfind
      split at h
      · rename_i hdue
        split at h
        · rename_i hdeleted
          cases h
          exact .dropped hticking hcurrent hmem hdue.1 hdue.2 hdeleted
        · rename_i hlive
          cases h
          exact .ticked hticking hcurrent hmem hdue.1 hdue.2 hlive
      · cases h
    · cases h
  | reinsert =>
    obtain ⟨timer, hcurrent, rfl⟩ := Option.map_eq_some_iff.mp h
    exact .reinserted hcurrent
  | leave =>
    simp only [step] at h
    split at h
    · rename_i now hticking hcurrent
      split at h
      · rename_i hnone
        cases h
        exact .left hticking hcurrent hnone.2
      · cases h
    · cases h

end TimerQueue
