import Mathlib.Data.List.Basic

/-!
Event logs, newest event first.

A state that records what happened in it can be asked two questions: what was
the latest event of a kind (`latest`), and what has happened since
(`since`). Both only look at the log down to that event, so an extension of
the log by events of other kinds changes neither the answer to the first
(`latest_append`) nor the tail of the answer to the second (`since_append`).
-/

namespace EventLog

variable {ε β : Type}

/-- The events newer than the newest one satisfying `p`. -/
def since (p : ε → Bool) (log : List ε) : List ε :=
  log.takeWhile fun e => !p e

/-- What `f` reads off the newest event it accepts. -/
def latest (f : ε → Option β) (log : List ε) : Option β :=
  log.findSome? f

theorem since_cons_of_pos {p : ε → Bool} {e : ε} (h : p e = true) (log : List ε) :
    since p (e :: log) = [] := by
  simp [since, h]

theorem since_cons_of_neg {p : ε → Bool} {e : ε} (h : p e = false) (log : List ε) :
    since p (e :: log) = e :: since p log := by
  simp [since, h]

theorem latest_cons_of_some {f : ε → Option β} {e : ε} {b : β} (h : f e = some b)
    (log : List ε) : latest f (e :: log) = some b := by
  simp [latest, h]

theorem latest_cons_of_none {f : ε → Option β} {e : ε} (h : f e = none) (log : List ε) :
    latest f (e :: log) = latest f log := by
  simp [latest, h]

/-- Events of other kinds only extend what has happened since. -/
theorem since_append {p : ε → Bool} {new : List ε} (h : ∀ e ∈ new, p e = false)
    (log : List ε) : since p (new ++ log) = new ++ since p log := by
  induction new with
  | nil => rfl
  | cons e new ih =>
    rw [List.cons_append, since_cons_of_neg (h e List.mem_cons_self),
      ih fun e he => h e (List.mem_cons_of_mem _ he), List.cons_append]

/-- Events of other kinds do not change the latest event. -/
theorem latest_append {f : ε → Option β} {new : List ε} (h : ∀ e ∈ new, f e = none)
    (log : List ε) : latest f (new ++ log) = latest f log := by
  induction new with
  | nil => rfl
  | cons e new ih =>
    rw [List.cons_append, latest_cons_of_none (h e List.mem_cons_self),
      ih fun e he => h e (List.mem_cons_of_mem _ he)]

theorem mem_of_mem_since {p : ε → Bool} {e : ε} {log : List ε} (h : e ∈ since p log) :
    e ∈ log :=
  (List.takeWhile_sublist _).subset h

/-- Two different events of one kind are counted twice. -/
theorem two_le_countP {p : ε → Bool} {a b : ε} {log : List ε} (ne : a ≠ b) (ha : a ∈ log)
    (hb : b ∈ log) (pa : p a = true) (pb : p b = true) : 2 ≤ log.countP p := by
  induction log with
  | nil => cases ha
  | cons e log ih =>
    have one : ∀ {c}, c ∈ log → p c = true → 1 ≤ log.countP p := fun hc pc =>
      List.countP_pos_iff.mpr ⟨_, hc, pc⟩
    rcases List.mem_cons.mp ha with rfl | ha'
    · rcases List.mem_cons.mp hb with rfl | hb'
      · exact absurd rfl ne
      · rw [List.countP_cons_of_pos pa]
        exact Nat.succ_le_succ (one hb' pb)
    · rcases List.mem_cons.mp hb with rfl | hb'
      · rw [List.countP_cons_of_pos pb]
        exact Nat.succ_le_succ (one ha' pa)
      · exact Nat.le_trans (ih ha' hb') (List.sublist_cons_self e log).countP_le

end EventLog
