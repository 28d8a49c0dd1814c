import CordactylBot.Library.Incremental
import CordactylBot.Library.Numeral
import Mathlib.Algebra.Group.Int.Defs

/-!
What C++ reads off a string.

A string is the list of its bytes. The number readers share one scan: white space, a
sign, and as many digits as there are; they differ in what they make of a number that
is missing or too large.
-/

namespace Dpp

open Incremental (breakOn)

/-- `std::isspace` in the C locale. -/
def isSpace (c : Char) : Bool :=
  c = ' ' || (9 ≤ c.toNat && c.toNat ≤ 13)

/-- The digit a character stands for, in either case. -/
def digitValue (c : Char) : Option Nat :=
  if '0' ≤ c ∧ c ≤ '9' then some (c.toNat - 48)
  else if 'a' ≤ c ∧ c ≤ 'f' then some (c.toNat - 87)
  else if 'A' ≤ c ∧ c ≤ 'F' then some (c.toNat - 55)
  else none

/-- The digits a string starts with. -/
def leadingDigits (base : Nat) : List Char → List Nat
  | [] => []
  | c :: cs =>
      match (digitValue c).filter (· < base) with
      | some d => d :: leadingDigits base cs
      | none => []

/-- The prefix `0x` is skipped when a digit follows it. -/
def skipHexPrefix : List Char → List Char
  | '0' :: x :: d :: cs =>
      if (x = 'x' ∨ x = 'X') ∧ (digitValue d).isSome then d :: cs else '0' :: x :: d :: cs
  | cs => cs

/-- What `strtol` and its relatives find in base 10 or 16; nothing when there are no digits. -/
def scanInteger (base : Nat) (s : List Char) : Option Int :=
  let s := s.dropWhile isSpace
  let negative := s.head? = some '-'
  let s := if negative ∨ s.head? = some '+' then s.tail else s
  match leadingDigits base (if base = 16 then skipHexPrefix s else s) with
  | [] => none
  | ds =>
      let n : Nat := ds.foldl (fun n d => base * n + d) 0
      some (if negative then -n else n)

/-- `atoi`; what it returns for a number that is no `int` is left open by C. -/
def atoi (s : List Char) : Int :=
  (scanInteger 10 s).getD 0

/-- `std::stoull`; nothing when it throws. -/
def stoull (s : List Char) : Option UInt64 :=
  (scanInteger 10 s).bind fun n => if n.natAbs < 2 ^ 64 then some (UInt64.ofInt n) else none

/-- `std::stoi` in base 16; nothing when it throws. -/
def stoi16 (s : List Char) : Option Int :=
  (scanInteger 16 s).bind fun n => if -2 ^ 31 ≤ n ∧ n < 2 ^ 31 then some n else none

/-- `from_string<uint64_t>`, by an input stream: no number is 0, one too large the largest. -/
def fromString (s : List Char) : UInt64 :=
  match scanInteger 10 s with
  | none => 0
  | some n => if n.natAbs < 2 ^ 64 then UInt64.ofInt n else UInt64.ofNat (2 ^ 64 - 1)

/-- `utility::tokenize`: any characters of the separator in front of a token are skipped,
and only the whole separator ends it. -/
def tokenize (separator s : List Char) : List (List Char) :=
  go s.length s
where
  go : Nat → List Char → List (List Char)
    | 0, _ => []
    | n + 1, s =>
        match s.dropWhile (separator.contains ·) with
        | [] => []
        | c :: cs =>
            match breakOn separator (c :: cs) with
            | none => [c :: cs]
            | some (token, rest) => token :: go n rest

def crlf : List Char := ['\r', '\n']

example : tokenize crlf "HTTP/1.1 200 OK\r\nA: b\r\n\r\nC: d".toList =
    ["HTTP/1.1 200 OK".toList, "A: b".toList, "C: d".toList] := by
  decide +kernel

/-! ### What is written in tokens is read in tokens -/

section

variable {d : Char} {ds : List Char}

theorem go_token {token : List Char} (hne : token ≠ []) (h : ∀ c ∈ token, c ∉ d :: ds) (n : Nat)
    (rest : List Char) :
    tokenize.go (d :: ds) (n + 1) (token ++ (d :: ds ++ rest)) =
      token :: tokenize.go (d :: ds) n rest := by
  obtain ⟨c, cs, rfl⟩ := List.exists_cons_of_ne_nil hne
  have hd : d ∉ c :: cs := fun hmem => h d hmem List.mem_cons_self
  have hc : (d :: ds).contains c = false := by simpa using h c List.mem_cons_self
  rw [tokenize.go, List.cons_append, List.dropWhile_cons, hc]
  simp only [Bool.false_eq_true, if_false]
  rw [← List.cons_append, Incremental.breakOn_of_notMem hd]

theorem go_last {token : List Char} (hne : token ≠ []) (h : ∀ c ∈ token, c ∉ d :: ds) (n : Nat) :
    tokenize.go (d :: ds) (n + 1) token = [token] := by
  obtain ⟨c, cs, rfl⟩ := List.exists_cons_of_ne_nil hne
  have hd : d ∉ c :: cs := fun hmem => h d hmem List.mem_cons_self
  have hc : (d :: ds).contains c = false := by simpa using h c List.mem_cons_self
  rw [tokenize.go, List.dropWhile_cons, hc]
  simp only [Bool.false_eq_true, if_false]
  rw [Incremental.breakOn_eq_none hd]

/-- Tokens with the separator between them. -/
def joined (separator : List Char) : List (List Char) → List Char
  | [] => []
  | [token] => token
  | token :: tokens => token ++ (separator ++ joined separator tokens)

theorem go_joined {tokens : List (List Char)}
    (h : ∀ token ∈ tokens, token ≠ [] ∧ ∀ c ∈ token, c ∉ d :: ds) {n : Nat}
    (hn : tokens.length ≤ n) : tokenize.go (d :: ds) n (joined (d :: ds) tokens) = tokens := by
  induction tokens generalizing n with
  | nil => cases n <;> rfl
  | cons token tokens ih =>
    obtain ⟨n, rfl⟩ : ∃ m, n = m + 1 := ⟨n - 1, by simp at hn; omega⟩
    obtain ⟨hne, hchars⟩ := h token List.mem_cons_self
    cases tokens with
    | nil => exact go_last hne hchars n
    | cons next tokens =>
      rw [joined, go_token hne hchars, ih (fun t ht => h t (List.mem_cons_of_mem _ ht))
        (by simpa using hn)]
      simp

theorem length_le_joined {separator : List Char} {tokens : List (List Char)}
    (h : ∀ token ∈ tokens, token ≠ []) : tokens.length ≤ (joined separator tokens).length := by
  induction tokens with
  | nil => exact Nat.zero_le _
  | cons token tokens ih =>
    have hpos := List.length_pos_iff.mpr (h token List.mem_cons_self)
    cases tokens with
    | nil => exact hpos
    | cons next tokens =>
      have := ih fun t ht => h t (List.mem_cons_of_mem _ ht)
      simp only [joined, List.length_append, List.length_cons] at this ⊢
      omega

theorem tokenize_joined {tokens : List (List Char)}
    (h : ∀ token ∈ tokens, token ≠ [] ∧ ∀ c ∈ token, c ∉ d :: ds) :
    tokenize (d :: ds) (joined (d :: ds) tokens) = tokens :=
  go_joined h (length_le_joined fun token ht => (h token ht).1)

end

/-! ### A written length is read back -/

theorem digitValue_digitChar : ∀ d < 16, digitValue d.digitChar = some d := by
  decide

theorem leadingDigits_map {base : Nat} (hbase : base ≤ 16) {ds : List Nat} (h : ∀ d ∈ ds, d < base)
    {rest : List Char} (hrest : leadingDigits base rest = []) :
    leadingDigits base (ds.map Nat.digitChar ++ rest) = ds := by
  induction ds with
  | nil => exact hrest
  | cons d ds ih =>
    have hd := h d List.mem_cons_self
    rw [List.map_cons, List.cons_append, leadingDigits,
      digitValue_digitChar d (by omega), Option.filter_some, decide_eq_true hd]
    simp only [if_true]
    rw [ih fun d hd => h d (List.mem_cons_of_mem _ hd)]

theorem leadingDigits_nil_of_head {base : Nat} {rest : List Char}
    (h : ∀ c ∈ rest.head?, digitValue c = none) : leadingDigits base rest = [] := by
  cases rest with
  | nil => rfl
  | cons c cs => rw [leadingDigits, h c rfl, Option.filter_none]

theorem digitChar_facts : ∀ d < 16, isSpace d.digitChar = false ∧ d.digitChar ≠ '-' ∧
    d.digitChar ≠ '+' ∧ d.digitChar ≠ 'x' ∧ d.digitChar ≠ 'X' := by
  decide

theorem skipHexPrefix_eq {s : List Char} (h : ∀ c ∈ s.tail.head?, c ≠ 'x' ∧ c ≠ 'X') :
    skipHexPrefix s = s := by
  unfold skipHexPrefix
  split
  · rename_i x d cs
    obtain ⟨hx, hX⟩ := h x rfl
    exact if_neg fun hp => hp.1.elim hx hX
  · rfl

/-- A number in front of something else that is no digit and does not read as the `x` of a
prefix. -/
theorem scanInteger_toDigits {base : Nat} (one_lt : 1 < base) (hbase : base ≤ 16) (n : Nat)
    {rest : List Char} (hrest : ∀ c ∈ rest.head?, digitValue c = none ∧ c ≠ 'x' ∧ c ≠ 'X') :
    scanInteger base (Nat.toDigits base n ++ rest) = some (n : Int) := by
  obtain ⟨ds, hds, hlt, htext, hvalue⟩ := Numeral.exists_digits one_lt n
  obtain ⟨d, ds, rfl⟩ := List.exists_cons_of_ne_nil hds
  have hd : d < 16 := Nat.lt_of_lt_of_le (hlt d List.mem_cons_self) hbase
  obtain ⟨hspace, hminus, hplus, -, -⟩ := digitChar_facts d hd
  have second : ∀ c ∈ ((d :: ds).map Nat.digitChar ++ rest).tail.head?, c ≠ 'x' ∧ c ≠ 'X' := by
    cases ds with
    | nil => exact fun c hc => (hrest c hc).2
    | cons e ds =>
      intro c hc
      cases hc
      obtain ⟨-, -, -, hx, hX⟩ := digitChar_facts e (Nat.lt_of_lt_of_le (hlt e (by simp)) hbase)
      exact ⟨hx, hX⟩
  rw [htext, scanInteger]
  simp only [List.map_cons, List.cons_append, List.dropWhile_cons, hspace, Bool.false_eq_true,
    if_false, List.head?_cons, Option.some.injEq, hminus, hplus, or_self]
  rw [← List.cons_append, ← List.map_cons, skipHexPrefix_eq second, ite_self,
    leadingDigits_map hbase hlt (leadingDigits_nil_of_head fun c hc => (hrest c hc).1)]
  simp only [hvalue]

theorem stoi16_toDigits {n : Nat} (h : n < 2 ^ 31) {rest : List Char}
    (hrest : ∀ c ∈ rest.head?, digitValue c = none ∧ c ≠ 'x' ∧ c ≠ 'X') :
    stoi16 (Nat.toDigits 16 n ++ rest) = some (n : Int) := by
  rw [stoi16, scanInteger_toDigits (by decide) (by decide) n hrest, Option.bind_some, if_pos]
  omega

end Dpp
