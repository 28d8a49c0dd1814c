import CordactylBot.Json.Text
import CordactylBot.Library.Numeral

/-!
The serializer of the JSON library, without indentation.

`parse_dump` says that the parser reads back what the serializer wrote, with and without
`ensure_ascii`; only that an integer has no sign is not remembered as the kind of the number.
-/

namespace Json

variable (F : FloatText) (ensureAscii : Bool)

/-! ### Writing -/

/-- `\u%04x`. -/
def unicodeEscape (n : Nat) : List Char :=
  '\\' :: 'u' :: Numeral.padded 16 4 n

/-- `dump_escaped`, for one code point. -/
def escaped (c : Char) : List Char :=
  let codepoint := c.toNat
  if codepoint = 0x08 then ['\\', 'b']
  else if codepoint = 0x09 then ['\\', 't']
  else if codepoint = 0x0A then ['\\', 'n']
  else if codepoint = 0x0C then ['\\', 'f']
  else if codepoint = 0x0D then ['\\', 'r']
  else if codepoint = 0x22 then ['\\', '"']
  else if codepoint = 0x5C then ['\\', '\\']
  else if codepoint ≤ 0x1F ∨ (ensureAscii = true ∧ 0x7F ≤ codepoint) then
    if codepoint ≤ 0xFFFF then unicodeEscape codepoint
    else unicodeEscape (0xD7C0 + codepoint / 2 ^ 10) ++ unicodeEscape (0xDC00 + codepoint % 2 ^ 10)
  else [c]

def dumpString (s : String) : List Char :=
  '"' :: (s.toList.flatMap (escaped ensureAscii) ++ ['"'])

/-- The two digits `digits_to_99` holds. -/
def twoDigits (n : Nat) : List Char :=
  [(n / 10).digitChar, (n % 10).digitChar]

/-- The digits of `dump_integer`, two at a time and from the last on; 64 bits need at most ten
turns. -/
def dumpDigits : Nat → Nat → List Char → List Char
  | 0, _, buffer => buffer
  | turns + 1, n, buffer =>
      if 100 ≤ n then dumpDigits turns (n / 100) (twoDigits (n % 100) ++ buffer)
      else if 10 ≤ n then twoDigits n ++ buffer
      else n.digitChar :: buffer

/-- `dump_integer`. -/
def dumpInteger (x : Int) : List Char :=
  if x = 0 then ['0']
  else if x < 0 then '-' :: dumpDigits 10 x.natAbs []
  else dumpDigits 10 x.natAbs []

mutual
/-- `dump`. -/
def dump : Json → List Char
  | .null => "null".toList
  | .boolean true => "true".toList
  | .boolean false => "false".toList
  | .numberInteger n => dumpInteger n.toInt
  | .numberUnsigned n => dumpInteger n.toNat
  | .numberFloat q => F.toChars q
  | .string s => dumpString ensureAscii s
  | .array elements => '[' :: dumpElements elements
  | .object members => '{' :: dumpMembers members

def dumpElements : List Json → List Char
  | [] => [']']
  | v :: rest => dump v ++ dumpMoreElements rest

def dumpMoreElements : List Json → List Char
  | [] => [']']
  | v :: rest => ',' :: (dump v ++ dumpMoreElements rest)

def dumpMembers : List (String × Json) → List Char
  | [] => ['}']
  | (key, v) :: rest => dumpString ensureAscii key ++ ':' :: (dump v ++ dumpMoreMembers rest)

def dumpMoreMembers : List (String × Json) → List Char
  | [] => ['}']
  | (key, v) :: rest =>
      ',' :: (dumpString ensureAscii key ++ ':' :: (dump v ++ dumpMoreMembers rest))
end

/-! ### Numbers -/

theorem toDigits_hundred {n : Nat} (h : 100 ≤ n) :
    Nat.toDigits 10 n = Nat.toDigits 10 (n / 100) ++ twoDigits (n % 100) := by
  have hten : ¬ n < 10 := by omega
  have hhundred : ¬ n / 10 < 10 := by omega
  rw [Nat.toDigits_eq_if (by decide), if_neg hten, Nat.toDigits_eq_if (by decide), if_neg hhundred,
    twoDigits, List.append_assoc]
  have hdiv : n / 10 / 10 = n / 100 := by omega
  have hfirst : n % 100 / 10 = n / 10 % 10 := by omega
  have hsecond : n % 100 % 10 = n % 10 := by omega
  rw [hdiv, hfirst, hsecond]
  rfl

/-- The digits are those of the number. -/
theorem dumpDigits_eq (turns n : Nat) (hn : n < 100 ^ turns) (buffer : List Char)
    (hpos : 0 < turns) : dumpDigits turns n buffer = Nat.toDigits 10 n ++ buffer := by
  induction turns generalizing n buffer with
  | zero => omega
  | succ turns ih =>
    rw [dumpDigits]
    split
    · rename_i hle
      have hturns : 0 < turns := by
        rcases Nat.eq_zero_or_pos turns with rfl | h
        · simp at hn
          omega
        · exact h
      have hlt : n / 100 < 100 ^ turns := Nat.div_lt_of_lt_mul (by rwa [pow_succ, mul_comm] at hn)
      rw [ih _ hlt _ hturns, toDigits_hundred hle, List.append_assoc]
    · rename_i hlt
      split
      · rename_i hle
        have hten : ¬ n < 10 := by omega
        have hdiv : n / 10 < 10 := by omega
        rw [Nat.toDigits_eq_if (by decide), if_neg hten, Nat.toDigits_eq_if (by decide), if_pos hdiv]
        rfl
      · rename_i hten
        rw [Nat.toDigits_eq_if (by decide), if_pos (by omega)]
        rfl

theorem dumpInteger_nat {n : Nat} (h : n < 2 ^ 64) : dumpInteger n = Nat.toDigits 10 n := by
  rw [dumpInteger]
  split
  · rename_i hzero
    rw [Int.natCast_eq_zero.mp hzero]
    rfl
  · rw [if_neg (by omega), Int.natAbs_natCast,
      dumpDigits_eq 10 n (Nat.lt_of_lt_of_le h (by decide)) [] (by decide), List.append_nil]

theorem dumpInteger_neg {n : Nat} (hpos : 0 < n) (h : n < 2 ^ 64) :
    dumpInteger (-n) = '-' :: Nat.toDigits 10 n := by
  rw [dumpInteger, if_neg (by omega), if_pos (by omega), Int.natAbs_neg, Int.natAbs_natCast,
    dumpDigits_eq 10 n (Nat.lt_of_lt_of_le h (by decide)) [] (by decide), List.append_nil]

theorem isDigit_digitChar : ∀ d < 10, d.digitChar.isDigit = true := by decide

theorem allDigits_toDigits (n : Nat) : AllDigits (Nat.toDigits 10 n) := by
  intro c hc
  obtain ⟨d, hd, rfl⟩ := Numeral.mem_toDigits (by decide) hc
  exact isDigit_digitChar d hd

/-- A number is written without zeros in front. -/
theorem whole_toDigits (n : Nat) : Whole (Nat.toDigits 10 n) := by
  have hhead : ∀ n, 0 < n → ∃ d ds, Nat.toDigits 10 n = d :: ds ∧ d ≠ '0' := by
    intro n
    induction n using Nat.strongRecOn with
    | ind n ih =>
      intro hpos
      rw [Nat.toDigits_eq_if (by decide)]
      split
      · rename_i hlt
        refine ⟨_, [], rfl, fun h => ?_⟩
        have := Numeral.digitChar_injOn n (by omega) 0 (by decide) h
        omega
      · obtain ⟨d, ds, heq, hne⟩ := ih (n / 10) (by omega) (by omega)
        exact ⟨d, ds ++ [(n % 10).digitChar], by rw [heq, List.cons_append], hne⟩
  rcases Nat.eq_zero_or_pos n with rfl | hpos
  · exact .zero
  · obtain ⟨d, ds, heq, hne⟩ := hhead n hpos
    rw [heq]
    exact .any hne (heq ▸ allDigits_toDigits n)

theorem spelling_unsigned {n : Nat} (h : n < 2 ^ 64) :
    Spelling (.valueUnsigned (UInt64.ofNat n)) (Nat.toDigits 10 n) := by
  have htoken : numberToken false (Nat.toDigits 10 n) ([] ++ []) = .valueUnsigned (UInt64.ofNat n) := by
    have hconvert : numberToken false (Nat.toDigits 10 n) ([] ++ []) =
        convert .unsigned ([] ++ Nat.toDigits 10 n ++ []) := rfl
    rw [hconvert, List.nil_append, List.append_nil, convert, Nat.ofDigitChars_ten_toDigits]
    exact if_pos h
  have hspelling := Spelling.number false (whole_toDigits n) .none .none
  rw [htoken] at hspelling
  simpa using hspelling

theorem spelling_negative {n : Nat} (h : n ≤ 2 ^ 63) :
    Spelling (.valueInteger (Int64.ofInt (-n))) ('-' :: Nat.toDigits 10 n) := by
  have htoken : numberToken true (Nat.toDigits 10 n) ([] ++ []) = .valueInteger (Int64.ofInt (-n)) := by
    have hconvert : numberToken true (Nat.toDigits 10 n) ([] ++ []) =
        convert .integer (['-'] ++ Nat.toDigits 10 n ++ []) := rfl
    rw [hconvert, List.append_nil, convert, List.cons_append, List.nil_append, List.tail_cons,
      Nat.ofDigitChars_ten_toDigits]
    exact if_pos h
  have hspelling := Spelling.number true (whole_toDigits n) .none .none
  rw [htoken] at hspelling
  simpa using hspelling

/-! ### Strings -/

theorem hexQuad_padded {n : Nat} (h : n < 16 ^ 4) : HexQuad n (Numeral.padded 16 4 n) := by
  have hlength := Numeral.length_padded (by decide : 1 < 16) (by decide : 0 < 4) h
  have hvalue := Numeral.value?_padded (by decide : 1 < 16) (by decide) 4 n
  have hmem := fun c => @Numeral.mem_padded 16 (by decide) c 4 n
  revert hlength hvalue hmem
  rcases Numeral.padded 16 4 n with _ | ⟨a, _ | ⟨b, _ | ⟨c, _ | ⟨d, _ | ⟨e, rest⟩⟩⟩⟩⟩ <;>
    intro hlength hvalue hmem <;> simp only [List.length_cons, List.length_nil] at hlength <;>
    try omega
  obtain ⟨w, hw, rfl⟩ := hmem a (by simp)
  obtain ⟨x, hx, rfl⟩ := hmem b (by simp)
  obtain ⟨y, hy, rfl⟩ := hmem c (by simp)
  obtain ⟨z, hz, rfl⟩ := hmem d (by simp)
  refine ⟨_, _, _, _, w, x, y, z, rfl, Dpp.digitValue_digitChar w hw, Dpp.digitValue_digitChar x hx,
    Dpp.digitValue_digitChar y hy, Dpp.digitValue_digitChar z hz, ?_⟩
  simp only [Numeral.value?, Numeral.valueFrom?, Numeral.digit?_digitChar (by decide : 16 ≤ 16) hw,
    Numeral.digit?_digitChar (by decide : 16 ≤ 16) hx,
    Numeral.digit?_digitChar (by decide : 16 ≤ 16) hy,
    Numeral.digit?_digitChar (by decide : 16 ≤ 16) hz, Option.bind_some, Option.some.injEq] at hvalue
  omega

theorem charSpelling_escaped (c : Char) : CharSpelling c (escaped ensureAscii c) := by
  have hchar : ∀ {n : Nat}, c.toNat = n → c = Char.ofNat n := by
    rintro n rfl
    exact (Char.ofNat_toNat c).symm
  have hvalid : c.toNat < 0xD800 ∨ 0xDFFF < c.toNat ∧ c.toNat < 0x110000 := c.valid
  unfold escaped
  dsimp only
  split_ifs with h8 h9 hA hC hD hquote hbackslash hcontrol hshort
  · rw [hchar h8]
    exact .short (by decide)
  · rw [hchar h9]
    exact .short (by decide)
  · rw [hchar hA]
    exact .short (by decide)
  · rw [hchar hC]
    exact .short (by decide)
  · rw [hchar hD]
    exact .short (by decide)
  · rw [hchar hquote]
    exact .short (by decide)
  · rw [hchar hbackslash]
    exact .short (by decide)
  · have hspelling := CharSpelling.unicode (hexQuad_padded (n := c.toNat) (by omega))
      (by simp [isHighSurrogate]; omega) (by simp [isLowSurrogate]; omega)
    rwa [Char.ofNat_toNat] at hspelling
  · have hhigh : isHighSurrogate (0xD7C0 + c.toNat / 2 ^ 10) = true := by
      simp [isHighSurrogate]
      omega
    have hlow : isLowSurrogate (0xDC00 + c.toNat % 2 ^ 10) = true := by
      simp [isLowSurrogate]
      omega
    have hspelling := CharSpelling.surrogates (hexQuad_padded (by omega)) (hexQuad_padded (by omega))
      hhigh hlow
    have hsum : 0x10000 + (0xD7C0 + c.toNat / 2 ^ 10 - 0xD800) * 2 ^ 10 +
        (0xDC00 + c.toNat % 2 ^ 10 - 0xDC00) = c.toNat := by omega
    rw [hsum, Char.ofNat_toNat] at hspelling
    simpa [unicodeEscape] using hspelling
  · refine .plain ?_ ?_ ?_
    · rintro rfl
      exact hquote rfl
    · rintro rfl
      exact hbackslash rfl
    · omega

theorem spelling_dumpString (s : String) : Spelling (.valueString s) (dumpString ensureAscii s) := by
  have hchars : List.Forall₂ CharSpelling s.toList (s.toList.map (escaped ensureAscii)) := by
    rw [List.forall₂_map_right_iff]
    exact List.forall₂_same.mpr fun c _ => charSpelling_escaped ensureAscii c
  have hspelling := Spelling.string hchars
  rw [String.ofList_toList] at hspelling
  exact hspelling

/-! ### Reading back -/

/-- A double is read back from what it was written as. -/
def FloatText.Prints (F : FloatText) (q : Rat) : Prop :=
  Spelling (.valueFloat (F.toChars q)) (F.toChars q) ∧ F.strtod (F.toChars q) = some q

mutual
/-- Every double of a value is read back from what it was written as. -/
def Prints (F : FloatText) : Json → Prop
  | .numberFloat q => F.Prints q
  | .array elements => PrintsElements F elements
  | .object members => PrintsMembers F members
  | _ => True

def PrintsElements (F : FloatText) : List Json → Prop
  | [] => True
  | v :: rest => Prints F v ∧ PrintsElements F rest

def PrintsMembers (F : FloatText) : List (String × Json) → Prop
  | [] => True
  | (_, v) :: rest => Prints F v ∧ PrintsMembers F rest
end

/-- An integer as it is read: it is only signed when it has a sign. -/
def rereadInteger (n : Int64) : Scalar :=
  if 0 ≤ n.toInt then .unsigned (UInt64.ofNat n.toInt.toNat) else .integer n

mutual
/-- The tree a value is written as. -/
def toTree : Json → SyntaxTree
  | .null => .scalar .null
  | .boolean b => .scalar (.boolean b)
  | .numberInteger n => .scalar (rereadInteger n)
  | .numberUnsigned n => .scalar (.unsigned n)
  | .numberFloat q => .scalar (.float (F.toChars q))
  | .string s => .scalar (.string s)
  | .array elements => .array (toTrees elements)
  | .object members => .object (toMemberTrees members)

def toTrees : List Json → List SyntaxTree
  | [] => []
  | v :: rest => toTree v :: toTrees rest

def toMemberTrees : List (String × Json) → List (String × SyntaxTree)
  | [] => []
  | (key, v) :: rest => (key, toTree v) :: toMemberTrees rest
end

mutual
/-- A value as it is read back. -/
def reread : Json → Json
  | .numberInteger n =>
      if 0 ≤ n.toInt then .numberUnsigned (UInt64.ofNat n.toInt.toNat) else .numberInteger n
  | .array elements => .array (rereadElements elements)
  | .object members => .object (rereadMembers members)
  | v => v

def rereadElements : List Json → List Json
  | [] => []
  | v :: rest => reread v :: rereadElements rest

def rereadMembers : List (String × Json) → List (String × Json)
  | [] => []
  | (key, v) :: rest => (key, reread v) :: rereadMembers rest
end

theorem Spelled.front {token : Token} {tokens : List Token} {text more : List Char}
    (h : Spelling token text) (hmore : Spelled tokens more) :
    Spelled (token :: tokens) (text ++ more) :=
  @Spelled.cons token tokens [] text more (by simp [Whitespace]) h hmore

theorem Spelled.sign {c : Char} {token : Token} {tokens : List Token} {more : List Char}
    (h : (c, token) ∈ punctuation) (hmore : Spelled tokens more) :
    Spelled (token :: tokens) (c :: more) :=
  Spelled.front (.punctuation h) hmore

theorem spelling_dumpInteger (n : Int64) :
    Spelling (rereadInteger n).token (dumpInteger n.toInt) := by
  have hmin := n.le_toInt
  have hmax := n.toInt_lt
  unfold rereadInteger
  split
  · rename_i hpos
    obtain ⟨k, hk⟩ := Int.eq_ofNat_of_zero_le hpos
    have hlt : k < 2 ^ 64 := by omega
    rw [hk, Int.toNat_natCast, dumpInteger_nat hlt]
    exact spelling_unsigned hlt
  · rename_i hneg
    obtain ⟨k, hk⟩ := Int.eq_ofNat_of_zero_le (a := -n.toInt) (by omega)
    have hint : n.toInt = -(k : Int) := by omega
    have hle : k ≤ 2 ^ 63 := by omega
    have hspelling := spelling_negative hle
    rw [← hint, Int64.ofInt_toInt] at hspelling
    rw [hint, dumpInteger_neg (by omega) (by omega)]
    exact hspelling

theorem spelling_dumpUnsigned (n : UInt64) :
    Spelling (.valueUnsigned n) (dumpInteger n.toNat) := by
  rw [dumpInteger_nat n.toNat_lt]
  have hspelling := spelling_unsigned n.toNat_lt
  rwa [UInt64.ofNat_toNat] at hspelling

variable {F}

mutual
/-- What is written spells the tokens of the tree. -/
theorem spelled_dump : ∀ (j : Json), Prints F j → ∀ {tokens : List Token} {more : List Char},
    Spelled tokens more → Spelled ((toTree F j).tokens ++ tokens) (dump F ensureAscii j ++ more)
  | .null, _, _, _, hmore => Spelled.front .literalNull hmore
  | .boolean true, _, _, _, hmore => Spelled.front .literalTrue hmore
  | .boolean false, _, _, _, hmore => Spelled.front .literalFalse hmore
  | .numberInteger n, _, _, _, hmore => Spelled.front (spelling_dumpInteger n) hmore
  | .numberUnsigned n, _, _, _, hmore => Spelled.front (spelling_dumpUnsigned n) hmore
  | .numberFloat _, hprints, _, _, hmore => Spelled.front hprints.1 hmore
  | .string s, _, _, _, hmore => Spelled.front (spelling_dumpString ensureAscii s) hmore
  | .array [], _, _, _, hmore => Spelled.sign (by decide) (Spelled.sign (by decide) hmore)
  | .array (v :: rest), hprints, tokens, more, hmore => by
      have hrest := spelled_dumpMoreElements rest hprints.2 hmore
      have hspelled := Spelled.sign (by decide : ('[', Token.beginArray) ∈ punctuation)
        (spelled_dump v hprints.1 hrest)
      simpa [toTree, toTrees, SyntaxTree.tokens, SyntaxTree.elementTokens, dump, dumpElements]
        using hspelled
  | .object [], _, _, _, hmore => Spelled.sign (by decide) (Spelled.sign (by decide) hmore)
  | .object ((key, v) :: rest), hprints, tokens, more, hmore => by
      have hrest := spelled_dumpMoreMembers rest hprints.2 hmore
      have hmember := Spelled.front (spelling_dumpString ensureAscii key)
        (Spelled.sign (by decide : (':', Token.nameSeparator) ∈ punctuation)
          (spelled_dump v hprints.1 hrest))
      have hspelled := Spelled.sign (by decide : ('{', Token.beginObject) ∈ punctuation) hmember
      simpa [toTree, toMemberTrees, SyntaxTree.tokens, SyntaxTree.memberTokens, dump, dumpMembers]
        using hspelled

theorem spelled_dumpMoreElements : ∀ (elements : List Json), PrintsElements F elements →
    ∀ {tokens : List Token} {more : List Char}, Spelled tokens more →
      Spelled (SyntaxTree.moreElements (toTrees F elements) ++ tokens)
        (dumpMoreElements F ensureAscii elements ++ more)
  | [], _, _, _, hmore => Spelled.sign (by decide) hmore
  | v :: rest, hprints, tokens, more, hmore => by
      have hrest := spelled_dumpMoreElements rest hprints.2 hmore
      have hspelled := Spelled.sign (by decide : (',', Token.valueSeparator) ∈ punctuation)
        (spelled_dump v hprints.1 hrest)
      simpa [toTrees, SyntaxTree.moreElements, dumpMoreElements] using hspelled

theorem spelled_dumpMoreMembers : ∀ (members : List (String × Json)), PrintsMembers F members →
    ∀ {tokens : List Token} {more : List Char}, Spelled tokens more →
      Spelled (SyntaxTree.moreMembers (toMemberTrees F members) ++ tokens)
        (dumpMoreMembers F ensureAscii members ++ more)
  | [], _, _, _, hmore => Spelled.sign (by decide) hmore
  | (key, v) :: rest, hprints, tokens, more, hmore => by
      have hrest := spelled_dumpMoreMembers rest hprints.2 hmore
      have hmember := Spelled.front (spelling_dumpString ensureAscii key)
        (Spelled.sign (by decide : (':', Token.nameSeparator) ∈ punctuation)
          (spelled_dump v hprints.1 hrest))
      have hspelled := Spelled.sign (by decide : (',', Token.valueSeparator) ∈ punctuation) hmember
      simpa [toMemberTrees, SyntaxTree.moreMembers, dumpMoreMembers] using hspelled
end

/-- A member behind all others goes to the end. -/
theorem insertMember_last {key : String} {v : Json} {before : List (String × Json)}
    (h : ∀ k ∈ before.map Prod.fst, k < key) : insertMember key v before = before ++ [(key, v)] := by
  induction before with
  | nil => rfl
  | cons m before ih =>
    obtain ⟨k, w⟩ := m
    have hlt : k < key := h k List.mem_cons_self
    rw [insertMember, if_neg (ne_of_gt hlt), if_neg (lt_asymm hlt),
      ih fun k' hk' => h k' (List.mem_cons_of_mem _ hk'), List.cons_append]

theorem value?_rereadInteger (n : Int64) :
    (rereadInteger n).value? F = some (reread (.numberInteger n)) := by
  unfold rereadInteger
  rw [reread]
  split <;> rfl

mutual
/-- The tree stands for the value as it is read back. -/
theorem value?_toTree : ∀ (j : Json), j.Ordered → Prints F j →
    (toTree F j).value? F = some (reread j)
  | .null, _, _ => rfl
  | .boolean _, _, _ => rfl
  | .numberInteger n, _, _ => value?_rereadInteger n
  | .numberUnsigned _, _, _ => rfl
  | .numberFloat q, _, hprints => by
      rw [toTree, SyntaxTree.value?, Scalar.value?, hprints.2]
      rfl
  | .string _, _, _ => rfl
  | .array elements, hordered, hprints => by
      rw [toTree, SyntaxTree.value?, elementValues?_toTrees elements hordered hprints]
      rfl
  | .object members, hordered, hprints => by
      rw [toTree, SyntaxTree.value?,
        memberValues?_toMemberTrees members hordered.1 hordered.2 hprints [] (by simp)]
      rfl

theorem elementValues?_toTrees : ∀ (elements : List Json), OrderedElements elements →
    PrintsElements F elements →
    SyntaxTree.elementValues? F (toTrees F elements) = some (rereadElements elements)
  | [], _, _ => rfl
  | v :: rest, hordered, hprints => by
      rw [toTrees, SyntaxTree.elementValues?, value?_toTree v hordered.1 hprints.1,
        Option.bind_some, elementValues?_toTrees rest hordered.2 hprints.2]
      rfl

theorem memberValues?_toMemberTrees : ∀ (members : List (String × Json)),
    (members.map Prod.fst).Pairwise (· < ·) → OrderedMembers members → PrintsMembers F members →
    ∀ (before : List (String × Json)),
      (∀ k ∈ before.map Prod.fst, ∀ key ∈ members.map Prod.fst, k < key) →
      SyntaxTree.memberValues? F before (toMemberTrees F members) =
        some (before ++ rereadMembers members)
  | [], _, _, _, before, _ => by
      rw [toMemberTrees, SyntaxTree.memberValues?, rereadMembers, List.append_nil]
  | (key, v) :: rest, hkeys, hordered, hprints, before, hbefore => by
      rw [List.map_cons, List.pairwise_cons] at hkeys
      rw [toMemberTrees, SyntaxTree.memberValues?, value?_toTree v hordered.1 hprints.1,
        Option.bind_some, insertMember_last fun k hk => hbefore k hk key List.mem_cons_self,
        memberValues?_toMemberTrees rest hkeys.2 hordered.2 hprints.2]
      · simp [rereadMembers]
      · intro k hk key' hkey'
        rw [List.map_append, List.mem_append] at hk
        rcases hk with hk | hk
        · exact hbefore k hk key' (List.mem_cons_of_mem _ hkey')
        · rw [List.map_singleton, List.mem_singleton] at hk
          exact hk ▸ hkeys.1 key' hkey'
end

/-- What is dumped is a text of the tree. -/
theorem writes_dump (j : Json) (prints : Prints F j) :
    (toTree F j).Writes (String.ofList (dump F ensureAscii j)).toList := by
  have hend : Spelled [] ([] ++ []) := .nil (by simp [Whitespace]) (.inl rfl)
  have hspelled := spelled_dump ensureAscii j prints hend
  simp only [List.append_nil] at hspelled
  exact ⟨_, .inl String.toList_ofList, hspelled⟩

/-- **What the serializer writes is read back**, with and without `ensure_ascii`. -/
theorem parse_dump {j : Json} (ordered : j.Ordered) (prints : Prints F j) :
    parse F (String.ofList (dump F ensureAscii j)) = .ok (reread j) := by
  have hwrites := writes_dump ensureAscii j prints
  have hvalue := value?_toTree j ordered prints
  exact parse_of_text hwrites hvalue

/-- Two values are only written alike when they are read alike. -/
theorem dump_inj {j j' : Json} {ascii ascii' : Bool} (ordered : j.Ordered) (prints : Prints F j)
    (ordered' : j'.Ordered) (prints' : Prints F j')
    (h : dump F ascii j = dump F ascii' j') : reread j = reread j' := by
  have hread := parse_of_text (writes_dump ascii j prints) (value?_toTree j ordered prints)
  rw [h, parse_of_text (writes_dump ascii' j' prints') (value?_toTree j' ordered' prints')] at hread
  exact (Except.ok.inj hread).symm

/-- The double 0.5 and its text. -/
def oneHalf : FloatText where
  strtod text := if text = "0.5".toList then some (1 / 2) else none
  toChars _ := "0.5".toList

theorem prints_oneHalf : oneHalf.Prints (1 / 2) := by
  have hfraction : Fraction ['.', '5'] := .some (by simp [AllDigits])
  exact ⟨Spelling.number false .zero hfraction .none, rfl⟩

/-- A value that needs every kind of escape and of number. -/
def sampleValue : Json :=
  .object [("\x01\"\\", .array [.numberInteger (-7), .string "\né😀", .numberFloat (1 / 2)])]

theorem parse_dump_sampleValue :
    parse oneHalf (String.ofList (dump oneHalf true sampleValue)) = .ok (reread sampleValue) :=
  parse_dump true ⟨by simp, ⟨trivial, trivial, trivial, trivial⟩, trivial⟩
    ⟨⟨trivial, trivial, prints_oneHalf, trivial⟩, trivial⟩

end Json
