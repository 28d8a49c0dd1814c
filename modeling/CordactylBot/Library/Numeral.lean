import Mathlib.Algebra.Group.Nat.Defs
import Mathlib.Tactic.Common

/-!
Numerals of a fixed width, in the bases up to 16.

`Nat.toDigits` writes a number with as many digits as it needs. Zeros in front bring
it to a width (`padded`); `value?` reads it back, and rejects what is no numeral.

* `length_padded` — a number below `b ^ width` takes exactly `width` digits.
* `value?_padded` — reading undoes writing.
-/

namespace Numeral

/-- The digit of base `b` a character stands for. -/
def digit? (b : Nat) (c : Char) : Option Nat :=
  (List.range b).find? fun d => d.digitChar = c

/-- The number a list of digits stands for, after the digits of `n`. -/
def valueFrom? (b : Nat) : Nat → List Char → Option Nat
  | n, [] => some n
  | n, c :: cs => (digit? b c).bind fun d => valueFrom? b (b * n + d) cs

/-- The number a list of digits stands for. -/
def value? (b : Nat) (cs : List Char) : Option Nat :=
  valueFrom? b 0 cs

/-- A number in base `b`, with zeros in front up to `width`. -/
def padded (b width n : Nat) : List Char :=
  (Nat.toDigits b n).leftpad width '0'

theorem digitChar_injOn : ∀ d < 16, ∀ e < 16, d.digitChar = e.digitChar → d = e := by
  decide

theorem digit?_digitChar {b d : Nat} (hb : b ≤ 16) (hd : d < b) :
    digit? b d.digitChar = some d := by
  rw [digit?, List.find?_eq_some_iff_getElem]
  refine ⟨by simp, d, by simpa using hd, by simp, fun e he => ?_⟩
  rw [List.getElem_range, Bool.not_eq_true', decide_eq_false_iff_not]
  intro h
  have := digitChar_injOn e (by omega) d (by omega) h
  omega

theorem valueFrom?_append (b n : Nat) (cs ds : List Char) :
    valueFrom? b n (cs ++ ds) = (valueFrom? b n cs).bind fun m => valueFrom? b m ds := by
  induction cs generalizing n with
  | nil => rfl
  | cons c cs ih =>
    rw [List.cons_append, valueFrom?, valueFrom?]
    cases digit? b c with
    | none => rfl
    | some d => exact ih _

theorem valueFrom?_toDigits {b : Nat} (one_lt : 1 < b) (hb : b ≤ 16) (n : Nat) :
    valueFrom? b 0 (Nat.toDigits b n) = some n := by
  induction n using Nat.strongRecOn with
  | ind n ih =>
    rw [Nat.toDigits_eq_if one_lt]
    split
    · rename_i hlt
      simp [valueFrom?, digit?_digitChar hb hlt]
    · rename_i hle
      have hdiv : n / b < n := Nat.div_lt_self (by omega) one_lt
      rw [valueFrom?_append, ih _ hdiv]
      simp [valueFrom?, digit?_digitChar hb (Nat.mod_lt n (by omega)), Nat.div_add_mod]

theorem valueFrom?_replicate {b : Nat} (hpos : 0 < b) (hb : b ≤ 16) (k : Nat) :
    valueFrom? b 0 (List.replicate k '0') = some 0 := by
  induction k with
  | zero => rfl
  | succ k ih =>
    have zero : digit? b '0' = some 0 := digit?_digitChar hb hpos
    rw [List.replicate_succ, valueFrom?, zero]
    exact ih

/-- **Reading undoes writing.** -/
theorem value?_padded {b : Nat} (one_lt : 1 < b) (hb : b ≤ 16) (width n : Nat) :
    value? b (padded b width n) = some n := by
  rw [value?, padded, List.leftpad, valueFrom?_append, valueFrom?_replicate (by omega) hb]
  exact valueFrom?_toDigits one_lt hb n

theorem length_padded {b width n : Nat} (one_lt : 1 < b) (hwidth : 0 < width)
    (hn : n < b ^ width) : (padded b width n).length = width := by
  rw [padded, List.length_leftpad, Nat.max_eq_left]
  exact (Nat.length_toDigits_le_iff one_lt hwidth).mpr hn

theorem mem_toDigits {b : Nat} (one_lt : 1 < b) {c : Char} {n : Nat} (h : c ∈ Nat.toDigits b n) :
    ∃ d < b, c = d.digitChar := by
  induction n using Nat.strongRecOn with
  | ind n ih =>
    rw [Nat.toDigits_eq_if one_lt] at h
    split at h
    · rename_i hlt
      exact ⟨n, hlt, List.mem_singleton.mp h⟩
    · rename_i hle
      rcases List.mem_append.mp h with h | h
      · exact ih _ (Nat.div_lt_self (by omega) one_lt) h
      · exact ⟨n % b, Nat.mod_lt n (by omega), List.mem_singleton.mp h⟩

/-- A numeral is its digits, written. -/
theorem exists_digits {b : Nat} (one_lt : 1 < b) (n : Nat) :
    ∃ ds : List Nat, ds ≠ [] ∧ (∀ d ∈ ds, d < b) ∧ Nat.toDigits b n = ds.map Nat.digitChar ∧
      ds.foldl (fun m d => b * m + d) 0 = n := by
  induction n using Nat.strongRecOn with
  | ind n ih =>
    rw [Nat.toDigits_eq_if one_lt]
    split
    · rename_i hlt
      exact ⟨[n], by simp, by simpa using hlt, rfl, by simp⟩
    · rename_i hle
      obtain ⟨ds, hds, hlt, htext, hvalue⟩ := ih (n / b) (Nat.div_lt_self (by omega) one_lt)
      refine ⟨ds ++ [n % b], by simp, ?_, by simp [htext], ?_⟩
      · intro d hd
        rcases List.mem_append.mp hd with hd | hd
        · exact hlt d hd
        · rw [List.mem_singleton.mp hd]
          exact Nat.mod_lt n (by omega)
      · rw [List.foldl_append, hvalue]
        exact Nat.div_add_mod n b

theorem exists_padded {b : Nat} (one_lt : 1 < b) (width n : Nat) :
    ∃ ds : List Nat, ds ≠ [] ∧ (∀ d ∈ ds, d < b) ∧ padded b width n = ds.map Nat.digitChar ∧
      ds.foldl (fun m d => b * m + d) 0 = n := by
  obtain ⟨ds, hds, hlt, htext, hvalue⟩ := exists_digits one_lt n
  have zeros : ∀ k : Nat, (List.replicate k 0).foldl (fun m d => b * m + d) 0 = 0 := by
    intro k
    induction k with
    | zero => rfl
    | succ k ih => exact ih
  refine ⟨List.replicate (width - (Nat.toDigits b n).length) 0 ++ ds, by simp [hds], ?_, ?_, ?_⟩
  · intro d hd
    rcases List.mem_append.mp hd with hd | hd
    · rw [List.eq_of_mem_replicate hd]
      omega
    · exact hlt d hd
  · rw [padded, List.leftpad, List.map_append, List.map_replicate, htext]
    rfl
  · rw [List.foldl_append, zeros, hvalue]

/-- Every character of a padded numeral is a digit of its base. -/
theorem mem_padded {b : Nat} (one_lt : 1 < b) {c : Char} {width n : Nat}
    (h : c ∈ padded b width n) : ∃ d < b, c = d.digitChar := by
  rw [padded, List.leftpad, List.mem_append] at h
  rcases h with h | h
  · exact ⟨0, by omega, List.eq_of_mem_replicate h⟩
  · exact mem_toDigits one_lt h

end Numeral
