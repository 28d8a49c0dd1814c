import Mathlib.Data.List.Basic

/-!
Readers that get their input in pieces.

A reader keeps a state and the input it has not used. One turn either makes progress and
looks at the rest again, or waits for more input, or stops. `drain` takes turns until the
reader waits or stops; `feed` hands it one more piece.

A reader is `Resumable` when more input behind what it has seen changes neither the
progress it makes nor, in the end, what it makes of the whole.

* `Reader.drain_append` — a waiting reader goes on as if it had seen all of it at once.
* `Reader.drain_induction` — the induction over the turns.
* `breakOn_append` — the first occurrence of a delimiter stays the first.
-/

namespace Incremental

variable {σ α : Type}

/-- What one look at the unused input does. -/
inductive Turn (σ α : Type) where
  | again (s : σ) (rest : List α)
  | wait (s : σ) (rest : List α)
  | stop (s : σ)

/-- Where a reader stands when it has no turn left to take. -/
inductive Standing (σ α : Type) where
  | waiting (s : σ) (rest : List α)
  | stopped (s : σ)

/-- A turn function with a weight that every `again` lowers. -/
structure Reader (σ α : Type) where
  turn : σ → List α → Turn σ α
  weight : σ → List α → Nat
  lowers : ∀ {s s' : σ} {input rest : List α}, turn s input = .again s' rest →
    weight s' rest < weight s input

namespace Reader

variable (R : Reader σ α)

/-- At most `n` turns. -/
def turns : Nat → σ → List α → Standing σ α
  | 0, s, input => .waiting s input
  | n + 1, s, input =>
      match R.turn s input with
      | .again s' rest => turns n s' rest
      | .wait s' rest => .waiting s' rest
      | .stop s' => .stopped s'

/-- Take turns until the reader waits or stops. -/
def drain (s : σ) (input : List α) : Standing σ α :=
  R.turns (R.weight s input + 1) s input

/-- One more piece of input; what comes after the end is ignored. -/
def feed : Standing σ α → List α → Standing σ α
  | .waiting s rest, piece => R.drain s (rest ++ piece)
  | .stopped s, _ => .stopped s

variable {R}

/-- Turns beyond the weight change nothing. -/
theorem turns_eq {s : σ} {input : List α} {m n : Nat} (hm : R.weight s input < m)
    (hn : R.weight s input < n) : R.turns m s input = R.turns n s input := by
  induction m generalizing s input n with
  | zero => omega
  | succ m ih =>
    obtain ⟨n, rfl⟩ : ∃ k, n = k + 1 := ⟨n - 1, by omega⟩
    rw [turns, turns]
    cases h : R.turn s input with
    | again s' rest =>
      have := R.lowers h
      exact ih (by omega) (by omega)
    | wait s' rest => rfl
    | stop s' => rfl

theorem drain_again {s s' : σ} {input rest : List α} (h : R.turn s input = .again s' rest) :
    R.drain s input = R.drain s' rest := by
  rw [drain, turns, h]
  exact turns_eq (R.lowers h) (Nat.lt_succ_self _)

theorem drain_wait {s s' : σ} {input rest : List α} (h : R.turn s input = .wait s' rest) :
    R.drain s input = .waiting s' rest := by
  rw [drain, turns, h]

theorem drain_stop {s s' : σ} {input : List α} (h : R.turn s input = .stop s') :
    R.drain s input = .stopped s' := by
  rw [drain, turns, h]

/-- What a reader does next is all that counts. -/
theorem drain_congr {s s' : σ} {input input' : List α} (h : R.turn s input = R.turn s' input') :
    R.drain s input = R.drain s' input' := by
  cases hturn : R.turn s' input' with
  | again t rest => rw [drain_again (h.trans hturn), drain_again hturn]
  | wait t rest => rw [drain_wait (h.trans hturn), drain_wait hturn]
  | stop t => rw [drain_stop (h.trans hturn), drain_stop hturn]

/-- **Induction over the turns.** -/
theorem drain_induction {p : σ → List α → Standing σ α → Prop}
    (again : ∀ s input s' rest, R.turn s input = .again s' rest →
      p s' rest (R.drain s' rest) → p s input (R.drain s' rest))
    (wait : ∀ s input s' rest, R.turn s input = .wait s' rest → p s input (.waiting s' rest))
    (stop : ∀ s input s', R.turn s input = .stop s' → p s input (.stopped s'))
    (s : σ) (input : List α) : p s input (R.drain s input) := by
  induction hw : R.weight s input using Nat.strongRecOn generalizing s input with
  | ind w ih =>
    cases h : R.turn s input with
    | again s' rest =>
      rw [drain_again h]
      exact again s input s' rest h (ih _ (hw ▸ R.lowers h) s' rest rfl)
    | wait s' rest =>
      rw [drain_wait h]
      exact wait s input s' rest h
    | stop s' =>
      rw [drain_stop h]
      exact stop s input s' h

/-! ### How the input is cut -/

/-- More input behind changes no progress, and a reader that waited makes of the whole
what it would have made of it at once. -/
structure Resumable (R : Reader σ α) : Prop where
  again : ∀ {s s' : σ} {input rest : List α} (more : List α),
    R.turn s input = .again s' rest → R.turn s (input ++ more) = .again s' (rest ++ more)
  wait : ∀ {s s' : σ} {input rest : List α} (more : List α),
    R.turn s input = .wait s' rest → R.drain s (input ++ more) = R.drain s' (rest ++ more)

theorem drain_append (h : R.Resumable) {s s' : σ} {input rest : List α}
    (hwait : R.drain s input = .waiting s' rest) (more : List α) :
    R.drain s (input ++ more) = R.drain s' (rest ++ more) := by
  revert hwait
  refine drain_induction (p := fun s input at_ => at_ = .waiting s' rest →
    R.drain s (input ++ more) = R.drain s' (rest ++ more)) ?_ ?_ ?_ s input
  · intro s input s₁ rest₁ hturn ih hwait
    rw [drain_again (h.again more hturn)]
    exact ih hwait
  · intro s input s₁ rest₁ hturn hwait
    cases hwait
    exact h.wait more hturn
  · intro s input s₁ _ hwait
    cases hwait

end Reader

/-! ### Delimiters -/

/-- The input before the first occurrence of a delimiter, and after it. -/
def breakOn [BEq α] (delimiter : List α) : List α → Option (List α × List α)
  | [] => if delimiter.isEmpty then some ([], []) else none
  | a :: as =>
      if delimiter.isPrefixOf (a :: as) then some ([], (a :: as).drop delimiter.length)
      else (breakOn delimiter as).map fun (before, after) => (a :: before, after)

section

variable [BEq α] [LawfulBEq α] {delimiter : List α}

/-- The input is what stands before the delimiter, the delimiter, and what stands after. -/
theorem eq_of_breakOn {input before after : List α}
    (h : breakOn delimiter input = some (before, after)) :
    input = before ++ (delimiter ++ after) := by
  induction input generalizing before with
  | nil =>
    rw [breakOn] at h
    split at h
    · rename_i hempty
      cases h
      simp [List.isEmpty_iff.mp hempty]
    · cases h
  | cons a as ih =>
    rw [breakOn] at h
    split at h
    · rename_i hprefix
      cases h
      obtain ⟨after, hafter⟩ := List.isPrefixOf_iff_prefix.mp hprefix
      rw [← hafter, List.drop_left, List.nil_append]
    · obtain ⟨⟨before', after'⟩, hrest, hpair⟩ := Option.map_eq_some_iff.mp h
      cases hpair
      rw [ih hrest, List.cons_append]

/-- **The first occurrence stays the first** when more input comes. -/
theorem breakOn_append {input before after : List α} (more : List α)
    (h : breakOn delimiter input = some (before, after)) :
    breakOn delimiter (input ++ more) = some (before, after ++ more) := by
  induction input generalizing before with
  | nil =>
    rw [breakOn] at h
    split at h
    · rename_i hempty
      cases h
      rw [List.isEmpty_iff.mp hempty]
      cases more <;> rfl
    · cases h
  | cons a as ih =>
    rw [breakOn] at h
    rw [List.cons_append, breakOn, ← List.cons_append]
    split at h
    · rename_i hprefix
      cases h
      have hmore := List.isPrefixOf_iff_prefix.mp hprefix
      rw [if_pos (List.isPrefixOf_iff_prefix.mpr (hmore.trans (List.prefix_append _ more))),
        List.drop_append_of_le_length hmore.length_le]
    · rename_i hprefix
      obtain ⟨⟨before', after'⟩, hrest, hpair⟩ := Option.map_eq_some_iff.mp h
      cases hpair
      -- the delimiter is still to come, so it is not longer than what is there
      have hlength : delimiter.length ≤ (a :: as).length := by
        have := congrArg List.length (eq_of_breakOn hrest)
        simp only [List.length_append] at this
        simp only [List.length_cons]
        omega
      have hmore : ¬ delimiter.isPrefixOf (a :: as ++ more) := fun hp =>
        hprefix (List.isPrefixOf_iff_prefix.mpr (List.prefix_of_prefix_length_le
          (List.isPrefixOf_iff_prefix.mp hp) (List.prefix_append _ more) hlength))
      rw [if_neg hmore, ih hrest]
      rfl

/-- What stands before the delimiter and the delimiter are enough to find it there. -/
theorem breakOn_before {input before after : List α}
    (h : breakOn delimiter input = some (before, after)) :
    breakOn delimiter (before ++ delimiter) = some (before, []) := by
  induction input generalizing before with
  | nil =>
    rw [breakOn] at h
    split at h
    · rename_i hempty
      cases h
      rw [List.isEmpty_iff.mp hempty]
      rfl
    · cases h
  | cons a as ih =>
    rw [breakOn] at h
    split at h
    · cases h
      cases delimiter with
      | nil => rfl
      | cons d ds => simp [breakOn]
    · rename_i hprefix
      obtain ⟨⟨before', after'⟩, hrest, hpair⟩ := Option.map_eq_some_iff.mp h
      cases hpair
      have hshort : ¬ delimiter.isPrefixOf (a :: (before' ++ delimiter)) = true := by
        rw [eq_of_breakOn hrest, List.isPrefixOf_iff_prefix] at hprefix
        rw [List.isPrefixOf_iff_prefix]
        refine fun hp => hprefix (hp.trans ?_)
        rw [← List.append_assoc]
        exact List.prefix_append _ after
      rw [List.cons_append, breakOn, if_neg hshort, ih hrest]
      rfl

/-- Nothing of the delimiter begins in what holds no first character of it. -/
theorem breakOn_append_of_notMem {d : α} {ds before : List α} (h : d ∉ before) (rest : List α) :
    breakOn (d :: ds) (before ++ rest) =
      (breakOn (d :: ds) rest).map fun (first, after) => (before ++ first, after) := by
  induction before with
  | nil =>
    rw [List.nil_append]
    cases breakOn (d :: ds) rest <;> rfl
  | cons a before ih =>
    rw [List.mem_cons, not_or] at h
    have hprefix : ¬ (d :: ds).isPrefixOf (a :: (before ++ rest)) = true := by
      simp [h.1]
    rw [List.cons_append, breakOn, if_neg hprefix, ih h.2, Option.map_map]
    rfl

theorem breakOn_eq_none {d : α} {ds input : List α} (h : d ∉ input) :
    breakOn (d :: ds) input = none := by
  have := @breakOn_append_of_notMem _ _ _ d ds input h []
  rwa [List.append_nil] at this

theorem breakOn_self (d : α) (ds after : List α) :
    breakOn (d :: ds) (d :: ds ++ after) = some ([], after) := by
  have hprefix : (d :: ds).isPrefixOf (d :: (ds ++ after)) = true :=
    List.isPrefixOf_iff_prefix.mpr (List.prefix_append (d :: ds) after)
  rw [List.cons_append, breakOn, if_pos hprefix]
  simp

/-- What holds no first character of the delimiter ends where the delimiter begins. -/
theorem breakOn_of_notMem {d : α} {ds before : List α} (h : d ∉ before) (after : List α) :
    breakOn (d :: ds) (before ++ (d :: ds ++ after)) = some (before, after) := by
  rw [breakOn_append_of_notMem h, breakOn_self]
  simp

end

end Incremental
