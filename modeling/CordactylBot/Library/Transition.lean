import Mathlib.Logic.Basic

/-!
Guarded transition systems.

A system is a start state and an executable step function; a label that is not
enabled steps to `none`. `run` replays a list of labels, so one definition
serves both a concrete run that `decide` evaluates and the inductions over all
runs:

* `Reachable.invariant` — a predicate of the start state that every step
  preserves holds in every reachable state;
* `Along` and `Along.invariant` — the same for the runs whose steps all meet a
  condition on the state before, the label and the state after;
* `Preserved.run` — the induction from an arbitrary state, for what a
  continuation of a run keeps.
-/

namespace Transition

/-- A start state and a step function; `none` means the label is not enabled. -/
structure System (σ α : Type) where
  start : σ
  step : σ → α → Option σ

variable {σ α : Type} (S : System σ α)

/-- Replay labels from a state; `none` as soon as one of them is not enabled. -/
def System.run : σ → List α → Option σ
  | s, [] => some s
  | s, a :: as => (S.step s a).bind fun t => System.run t as

@[simp] theorem System.run_nil (s : σ) : S.run s [] = some s := rfl

theorem System.run_cons {s u : σ} {a : α} {as : List α} :
    S.run s (a :: as) = some u ↔ ∃ t, S.step s a = some t ∧ S.run t as = some u := by
  simp [System.run, Option.bind_eq_some_iff]

theorem System.run_append {s u : σ} {as bs : List α} :
    S.run s (as ++ bs) = some u ↔ ∃ t, S.run s as = some t ∧ S.run t bs = some u := by
  induction as generalizing s with
  | nil => simp
  | cons a as ih =>
    rw [List.cons_append, System.run_cons]
    constructor
    · rintro ⟨t, step, rest⟩
      obtain ⟨v, first, last⟩ := ih.mp rest
      exact ⟨v, (S.run_cons).mpr ⟨t, step, first⟩, last⟩
    · rintro ⟨v, first, last⟩
      obtain ⟨t, step, rest⟩ := (S.run_cons).mp first
      exact ⟨t, step, ih.mpr ⟨v, rest, last⟩⟩

/-- `s` is the end of a run from the start state. -/
def System.Reachable (s : σ) : Prop :=
  ∃ as, S.run S.start as = some s

/-- Every step out of a `P` state ends in a `P` state. -/
def System.Preserved (P : σ → Prop) : Prop :=
  ∀ s a t, P s → S.step s a = some t → P t

variable {S}

theorem System.Preserved.run {P : σ → Prop} (h : S.Preserved P) :
    ∀ {as : List α} {s t : σ}, P s → S.run s as = some t → P t
  | [], s, t, hs, hrun => by
      rw [System.run_nil, Option.some.injEq] at hrun
      exact hrun ▸ hs
  | a :: as, s, t, hs, hrun => by
      obtain ⟨u, step, rest⟩ := (S.run_cons).mp hrun
      exact h.run (h s a u hs step) rest

/-- **The invariant rule.** -/
theorem System.Reachable.invariant {P : σ → Prop} {s : σ} (h : S.Reachable s)
    (start : P S.start) (preserved : S.Preserved P) : P s := by
  obtain ⟨as, hrun⟩ := h
  exact preserved.run start hrun

theorem System.Reachable.step {s t : σ} {a : α} (h : S.Reachable s)
    (hstep : S.step s a = some t) : S.Reachable t := by
  obtain ⟨as, hrun⟩ := h
  exact ⟨as ++ [a], (S.run_append).mpr ⟨s, hrun, (S.run_cons).mpr ⟨t, hstep, rfl⟩⟩⟩

theorem System.Reachable.run {s t : σ} {as : List α} (h : S.Reachable s)
    (hrun : S.run s as = some t) : S.Reachable t := by
  obtain ⟨bs, hs⟩ := h
  exact ⟨bs ++ as, (S.run_append).mpr ⟨s, hs, hrun⟩⟩

/-! ### Runs whose steps meet a condition -/

variable (S) in
/-- Every step the run from `s` along the labels takes satisfies `Q`. -/
def System.Along (Q : σ → α → σ → Prop) : σ → List α → Prop
  | _, [] => True
  | s, a :: as => ∀ t, S.step s a = some t → Q s a t ∧ System.Along Q t as

theorem System.along_cons {Q : σ → α → σ → Prop} {s t : σ} {a : α} {as : List α}
    (h : S.step s a = some t) : S.Along Q s (a :: as) ↔ Q s a t ∧ S.Along Q t as := by
  simp [Along, h]

instance System.decidableAlong {Q : σ → α → σ → Prop} [∀ s a t, Decidable (Q s a t)] :
    ∀ s as, Decidable (S.Along Q s as)
  | _, [] => inferInstanceAs (Decidable True)
  | s, a :: as =>
      match h : S.step s a with
      | none => isTrue (by simp [Along, h])
      | some t =>
          have := System.decidableAlong (Q := Q) t as
          decidable_of_iff (Q s a t ∧ S.Along Q t as) (System.along_cons h).symm

/-- The step after a run is one of its steps. -/
theorem System.Along.last {Q : σ → α → σ → Prop} :
    ∀ {as : List α} {a : α} {s t u : σ}, S.Along Q s (as ++ [a]) → S.run s as = some t →
      S.step t a = some u → Q t a u
  | [], a, s, t, u, along, hrun, hstep => by
      rw [System.run_nil, Option.some.injEq] at hrun
      subst hrun
      exact (along u hstep).1
  | b :: as, a, s, t, u, along, hrun, hstep => by
      obtain ⟨v, first, rest⟩ := (S.run_cons).mp hrun
      exact (along v first).2.last rest hstep

/-- The invariant rule for runs whose steps all satisfy `Q`. -/
theorem System.Along.invariant {P : σ → Prop} {Q : σ → α → σ → Prop}
    (preserved : ∀ s a t, P s → S.step s a = some t → Q s a t → P t) :
    ∀ {as : List α} {s t : σ}, S.Along Q s as → P s → S.run s as = some t → P t
  | [], s, t, _, hs, hrun => by
      rw [System.run_nil, Option.some.injEq] at hrun
      exact hrun ▸ hs
  | a :: as, s, t, along, hs, hrun => by
      obtain ⟨u, step, rest⟩ := (S.run_cons).mp hrun
      obtain ⟨hq, along⟩ := along u step
      exact along.invariant preserved (preserved s a u hs step hq) rest

/-- What holds of every single step that satisfies `Q` and starts in a `P`
state holds along the whole run. -/
theorem System.Along.mono {P : σ → Prop} {Q R : σ → α → σ → Prop}
    (preserved : ∀ s a t, P s → S.step s a = some t → Q s a t → P t)
    (imp : ∀ s a t, P s → S.step s a = some t → Q s a t → R s a t) :
    ∀ {as : List α} {s : σ}, S.Along Q s as → P s → S.Along R s as
  | [], _, _, _ => trivial
  | a :: _, s, along, hs => fun u step =>
      have ⟨hq, rest⟩ := along u step
      ⟨imp s a u hs step hq, rest.mono preserved imp (preserved s a u hs step hq)⟩

end Transition
