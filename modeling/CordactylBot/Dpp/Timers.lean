import Std.Data.ExtTreeMap

/-!
The timers of a D++ cluster.

`stop_timer` does not look for the timer: it only notes the handle, and the timer is
dropped when it is due the next time. Handles are given out from one up, so noting
the handle zero stops nothing.
-/

/-- The timers of a cluster, each by its handle with what its tick does. -/
structure Timers (τ : Type) where
  nextHandle : Nat := 1
  nextTimer : Std.ExtTreeMap Nat τ compare := ∅
  deletedTimers : List Nat := []

namespace Timers

variable {τ : Type}

/-- `start_timer`; the handle it returns is `nextHandle`. -/
def startTimer (q : Timers τ) (onTick : τ) : Timers τ :=
  { q with
    nextHandle := q.nextHandle + 1
    nextTimer := q.nextTimer.insert q.nextHandle onTick }

/-- `stop_timer`. -/
def stopTimer (q : Timers τ) (handle : Nat) : Timers τ :=
  { q with deletedTimers := q.deletedTimers.insert handle }

/-- A deleted timer is due: it is not reinserted. -/
def drop (q : Timers τ) (handle : Nat) : Timers τ :=
  { q with
    nextTimer := q.nextTimer.erase handle
    deletedTimers := q.deletedTimers.filter (· ≠ handle) }

/-- After a start there is the new timer, and there are the old ones. -/
theorem startTimer_cases {q : Timers τ} {onTick t : τ} {handle : Nat}
    (h : (q.startTimer onTick).nextTimer[handle]? = some t) :
    t = onTick ∨ q.nextTimer[handle]? = some t := by
  rw [startTimer, Std.ExtTreeMap.getElem?_insert] at h
  split at h
  · exact .inl (Option.some.inj h).symm
  · exact .inr h

/-- A timer that is there after another was dropped was there before. -/
theorem of_drop {q : Timers τ} {handle h : Nat} {t : τ}
    (ht : (q.drop handle).nextTimer[h]? = some t) : q.nextTimer[h]? = some t := by
  rw [drop, Std.ExtTreeMap.getElem?_erase] at ht
  split at ht
  · cases ht
  · exact ht

end Timers
