import CordactylBot.Json.Spelling

/-!
The texts the parser accepts.

* `parse_iff` — they are the texts of syntax trees: their tokens, with white space between
  them, behind at most one byte order mark and in front of the end or a NUL. The value is that
  of the tree.
* `parse_ordered` — a value that was parsed is as the library keeps values.
-/

namespace Json

/-- A text spells tokens, with white space between them. -/
inductive Spelled : List Token → List Char → Prop where
  | nil {ws tail : List Char} : Whitespace ws → EndsText tail → Spelled [] (ws ++ tail)
  | cons {token : Token} {tokens : List Token} {ws text more : List Char} : Whitespace ws →
      Spelling token text → Spelled tokens more → Spelled (token :: tokens) (ws ++ (text ++ more))

/-- The byte order mark. -/
def byteOrderMark : Char := Char.ofNat 0xFEFF

namespace SyntaxTree

/-- The text is one of the tree. -/
def Writes (t : SyntaxTree) (text : List Char) : Prop :=
  ∃ body, (text = body ∨ text = byteOrderMark :: body) ∧ Spelled t.tokens body

end SyntaxTree

/-! ### Numbers end where they should -/

/-- What may follow a value. -/
def Token.closes : Token → Bool
  | .valueSeparator | .endArray | .endObject => true
  | _ => false

/-- The tokens are at an end, or go on behind a value. -/
def Closing (tokens : List Token) : Prop :=
  ∀ token ∈ tokens.head?, token.closes = true

/-- No number is followed by what could belong to it. -/
def Separated : List Token → Prop
  | [] => True
  | token :: tokens => (token.isNumber = true → Closing tokens) ∧ Separated tokens

namespace SyntaxTree

theorem closing_moreElements (elements : List SyntaxTree) (rest : List Token) :
    Closing (moreElements elements ++ rest) := by
  cases elements <;> simp [Closing, moreElements, Token.closes]

theorem closing_moreMembers (members : List (String × SyntaxTree)) (rest : List Token) :
    Closing (moreMembers members ++ rest) := by
  cases members <;> simp [Closing, moreMembers, Token.closes]

mutual
theorem separated_tokens : ∀ (t : SyntaxTree) {rest : List Token}, Closing rest → Separated rest →
    Separated (t.tokens ++ rest)
  | .scalar s, rest, hclosing, hrest => ⟨fun _ => hclosing, hrest⟩
  | .array [], rest, _, hrest => ⟨nofun, nofun, hrest⟩
  | .array (t :: elements), rest, hclosing, hrest => by
      rw [tokens, elementTokens, List.cons_append, List.append_assoc]
      exact ⟨nofun, separated_tokens t (closing_moreElements elements rest)
        (separated_moreElements elements hrest)⟩
  | .object [], rest, _, hrest => ⟨nofun, nofun, hrest⟩
  | .object ((key, t) :: members), rest, hclosing, hrest => by
      rw [tokens, memberTokens]
      simp only [List.cons_append, List.append_assoc]
      exact ⟨nofun, nofun, nofun, separated_tokens t (closing_moreMembers members rest)
        (separated_moreMembers members hrest)⟩

theorem separated_moreElements : ∀ (elements : List SyntaxTree) {rest : List Token},
    Separated rest → Separated (moreElements elements ++ rest)
  | [], rest, hrest => ⟨nofun, hrest⟩
  | t :: elements, rest, hrest => by
      rw [moreElements, List.cons_append, List.append_assoc]
      exact ⟨nofun, separated_tokens t (closing_moreElements elements rest)
        (separated_moreElements elements hrest)⟩

theorem separated_moreMembers : ∀ (members : List (String × SyntaxTree)) {rest : List Token},
    Separated rest → Separated (moreMembers members ++ rest)
  | [], rest, hrest => ⟨nofun, hrest⟩
  | (key, t) :: members, rest, hrest => by
      rw [moreMembers]
      simp only [List.cons_append, List.append_assoc]
      exact ⟨nofun, nofun, nofun, separated_tokens t (closing_moreMembers members rest)
        (separated_moreMembers members hrest)⟩
end

theorem separated (t : SyntaxTree) : Separated t.tokens := by
  have := @separated_tokens t [] (by simp [Closing]) trivial
  rwa [List.append_nil] at this

end SyntaxTree

/-- A token that is found in the middle of a text. -/
def Token.Inner (token : Token) : Prop :=
  token.Sane ∧ token ≠ .endOfInput

theorem Spelling.inner {token : Token} {text : List Char} (h : Spelling token text) :
    token.Inner := by
  cases h with
  | punctuation hmem =>
    have hall : ∀ entry ∈ Json.punctuation,
        entry.2 ≠ .endOfInput ∧ entry.2.typeName ≠ "<parse error>" := by decide
    refine ⟨?_, (hall _ hmem).1⟩
    rintro message rfl
    exact (hall _ hmem).2 rfl
  | @number whole fraction exponent minus =>
    refine ⟨fun message h => ?_, convert_ne_end _ _⟩
    have hnumber : (numberToken minus whole (fraction ++ exponent)).isNumber = true :=
      isNumber_convert _ _
    rw [h] at hnumber
    cases hnumber
  | _ => exact ⟨nofun, nofun⟩

theorem scanAll_end {input : List Char} (h : (scan input).1 = .endOfInput) (fuel : Nat) :
    scanAll (fuel + 1) input = [.endOfInput] := by
  rw [scanAll]
  revert h
  rcases scan input with ⟨token, rest⟩
  rintro rfl
  rfl

theorem scanAll_error {input rest : List Char} {message : String}
    (h : scan input = (.parseError message, rest)) (fuel : Nat) :
    scanAll (fuel + 1) input = [.parseError message] := by
  rw [scanAll, h]

theorem scanAll_cons {fuel : Nat} {input rest : List Char} {token : Token}
    (h : scan input = (token, rest)) (inner : token.Inner) :
    scanAll (fuel + 1) input = token :: scanAll fuel rest := by
  rw [scanAll, h]
  cases token with
  | endOfInput => exact absurd rfl inner.2
  | parseError message => exact absurd rfl (inner.1 message)
  | _ => rfl

theorem Spelling.ne_nil {token : Token} {text : List Char} (h : Spelling token text) :
    text ≠ [] := by
  cases h with
  | number minus hwhole =>
    obtain ⟨c, more, rfl, -⟩ := hwhole.head
    simp
  | _ => simp

theorem Token.not_closes {token : Token} (h : token.isNumber = true) : token.closes = false := by
  cases token <;> first | rfl | cases h

/-- Behind a number, its text is at its end. -/
theorem Spelled.stops {tokens : List Token} {input : List Char} (h : Spelled tokens input)
    (closing : Closing tokens) : Stops input := by
  have plain : ∀ c, isWhitespace c = true → c.isDigit = false ∧ c ≠ '.' ∧ c ≠ 'e' ∧ c ≠ 'E' := by
    intro c hc
    simp only [isWhitespace, Bool.or_eq_true, decide_eq_true_eq] at hc
    rcases hc with ((rfl | rfl) | rfl) | rfl <;> decide
  cases h with
  | @nil ws tail hws htail =>
    intro c hc
    cases ws with
    | cons d ws =>
      cases hc
      exact plain _ (hws _ List.mem_cons_self)
    | nil =>
      rcases htail with rfl | ⟨rest, rfl⟩
      · cases hc
      · cases hc
        decide
  | @cons token tokens ws text more hws hspelling =>
    intro c hc
    cases ws with
    | cons d ws =>
      cases hc
      exact plain _ (hws _ List.mem_cons_self)
    | nil =>
      have hcloses : token.closes = true := closing token rfl
      cases hspelling with
      | @punctuation d _ hmem =>
        cases hc
        have hall : ∀ entry ∈ punctuation, entry.1.isDigit = false ∧ entry.1 ≠ '.' ∧
            entry.1 ≠ 'e' ∧ entry.1 ≠ 'E' := by decide
        exact hall _ hmem
      | @number whole fraction exponent minus =>
        have hnumber : (numberToken minus whole (fraction ++ exponent)).isNumber = true :=
          isNumber_convert _ _
        exact absurd hcloses (by simp [Token.not_closes hnumber])
      | _ => cases hcloses

theorem scanAll_spelled {tokens : List Token} {input : List Char} (h : Spelled tokens input)
    (separated : Separated tokens) {fuel : Nat} (hfuel : input.length < fuel) :
    scanAll fuel input = tokens ++ [.endOfInput] := by
  induction h generalizing fuel with
  | nil hws htail =>
    obtain ⟨fuel, rfl⟩ : ∃ n, fuel = n + 1 := ⟨fuel - 1, by omega⟩
    exact scanAll_end (scan_end hws htail) fuel
  | @cons token tokens ws text more hws hspelling hmore ih =>
    obtain ⟨fuel, rfl⟩ : ∃ n, fuel = n + 1 := ⟨fuel - 1, by omega⟩
    have hpos := List.length_pos_iff.mpr hspelling.ne_nil
    simp only [List.length_append] at hfuel
    have hscan := scan_spelling hspelling hws fun hnumber => hmore.stops (separated.1 hnumber)
    rw [scanAll_cons hscan hspelling.inner, ih separated.2 (by omega), List.cons_append]

/-- What is scanned next: the end, an error or a token. -/
theorem scan_cases (input : List Char) : (scan input).1 = .endOfInput ∨
    (∃ message rest, scan input = (.parseError message, rest)) ∨
    ∃ token rest, scan input = (token, rest) ∧ token.Inner := by
  rcases hscan : scan input with ⟨token, rest⟩
  by_cases hend : token = .endOfInput
  · exact .inl hend
  · by_cases herror : ∃ message, token = .parseError message
    · obtain ⟨message, rfl⟩ := herror
      exact .inr (.inl ⟨message, rest, rfl⟩)
    · exact .inr (.inr ⟨token, rest, rfl, fun message h => herror ⟨message, h⟩, hend⟩)

theorem spelled_of_scanAll {tokens rest : List Token} {fuel : Nat} {input : List Char}
    (hfuel : input.length < fuel) (inner : ∀ token ∈ tokens, token.Inner)
    (hend : lastToken rest = .endOfInput) (h : scanAll fuel input = tokens ++ rest) :
    Spelled tokens input := by
  induction tokens generalizing fuel input with
  | nil =>
    obtain ⟨fuel, rfl⟩ : ∃ n, fuel = n + 1 := ⟨fuel - 1, by omega⟩
    rw [List.nil_append] at h
    rw [← h] at hend
    rcases scan_cases input with hscan | ⟨message, left, hscan⟩ | ⟨token, left, hscan, htoken⟩
    · obtain ⟨ws, tail, hws, htail, rfl⟩ := exists_end hscan
      exact .nil hws htail
    · rw [scanAll_error hscan] at hend
      cases hend
    · rw [scanAll_cons hscan htoken] at hend
      exact absurd hend htoken.2
  | cons token tokens ih =>
    obtain ⟨fuel, rfl⟩ : ∃ n, fuel = n + 1 := ⟨fuel - 1, by omega⟩
    have hinner := inner token List.mem_cons_self
    rcases scan_cases input with hscan | ⟨message, left, hscan⟩ | ⟨token', left, hscan, htoken⟩
    · rw [scanAll_end hscan] at h
      exact absurd (List.cons.inj h).1.symm hinner.2
    · rw [scanAll_error hscan] at h
      exact absurd (List.cons.inj h).1.symm (hinner.1 message)
    · rw [scanAll_cons hscan htoken] at h
      obtain ⟨rfl, hrest⟩ := List.cons.inj h
      obtain ⟨ws, text, hws, hspelling, rfl⟩ := exists_spelling hscan hinner.1 hinner.2
      have hpos := List.length_pos_iff.mpr hspelling.ne_nil
      simp only [List.length_append] at hfuel
      exact .cons hws hspelling (ih (by omega)
        (fun token h => inner token (List.mem_cons_of_mem _ h)) hrest)

/-! ### The byte order mark -/

theorem Spelling.ascii {token : Token} {text : List Char} (h : Spelling token text) :
    ∃ c more, text = c :: more ∧ c.toNat < 128 := by
  cases h with
  | punctuation hmem =>
    have hall : ∀ entry ∈ Json.punctuation, entry.1.toNat < 128 := by decide
    exact ⟨_, [], rfl, hall _ hmem⟩
  | number minus hwhole =>
    obtain ⟨c, more, rfl, hc⟩ := hwhole.head
    have hascii : c.toNat < 128 := by
      simp only [Char.isDigit, Bool.and_eq_true, decide_eq_true_eq] at hc
      have := UInt32.le_iff_toNat_le.mp hc.2
      exact Nat.lt_of_le_of_lt this (by decide)
    cases minus with
    | false => exact ⟨c, _, rfl, hascii⟩
    | true => exact ⟨'-', _, rfl, by decide⟩
  | literalTrue => exact ⟨'t', _, rfl, by decide⟩
  | literalFalse => exact ⟨'f', _, rfl, by decide⟩
  | literalNull => exact ⟨'n', _, rfl, by decide⟩
  | string => exact ⟨'"', _, rfl, by decide⟩

/-- Texts of tokens begin with ASCII. -/
theorem Spelled.ascii {tokens : List Token} {input : List Char} (h : Spelled tokens input) :
    ∀ c ∈ input.head?, c.toNat < 128 := by
  have white : ∀ c, isWhitespace c = true → c.toNat < 128 := by
    intro c hc
    simp only [isWhitespace, Bool.or_eq_true, decide_eq_true_eq] at hc
    rcases hc with ((rfl | rfl) | rfl) | rfl <;> decide
  intro c hc
  cases h with
  | @nil ws tail hws htail =>
    cases ws with
    | cons d ws =>
      cases hc
      exact white _ (hws _ List.mem_cons_self)
    | nil =>
      rcases htail with rfl | ⟨rest, rfl⟩
      · cases hc
      · cases hc
        decide
  | @cons token tokens ws text more hws hspelling =>
    cases ws with
    | cons d ws =>
      cases hc
      exact white _ (hws _ List.mem_cons_self)
    | nil =>
      obtain ⟨d, left, rfl, hd⟩ := hspelling.ascii
      cases hc
      exact hd

theorem skipBom_spelled {tokens : List Token} {body : List Char} (h : Spelled tokens body) :
    skipBom body = some body := by
  cases body with
  | nil => rfl
  | cons c body =>
    have hc := h.ascii c rfl
    rw [skipBom, if_neg (by omega), if_neg (by omega)]

theorem skipBom_eq_some {text body : List Char} (h : skipBom text = some body) :
    text = body ∨ text = byteOrderMark :: body := by
  cases text with
  | nil =>
    cases h
    exact .inl rfl
  | cons c text =>
    rw [skipBom] at h
    split_ifs at h with hbom
    · cases h
      refine .inr ?_
      rw [byteOrderMark, ← hbom, Char.ofNat_toNat]
    · cases h
      exact .inl rfl

/-! ### What is parsed -/

namespace SyntaxTree

theorem inner_scalar (s : Scalar) : s.token.Inner := by
  cases s with
  | boolean b => cases b <;> exact ⟨by simp [Token.Sane, Scalar.token], by simp [Scalar.token]⟩
  | _ => exact ⟨by simp [Token.Sane, Scalar.token], by simp [Scalar.token]⟩

mutual
theorem inner_tokens : ∀ (t : SyntaxTree), ∀ token ∈ t.tokens, token.Inner
  | .scalar s => by
      rw [tokens]
      simpa using inner_scalar s
  | .array [] => by
      simp [tokens, elementTokens, Token.Inner, Token.Sane]
  | .array (t :: elements) => by
      rw [tokens, elementTokens, List.forall_mem_cons, List.forall_mem_append]
      exact ⟨by simp [Token.Inner, Token.Sane], inner_tokens t, inner_moreElements elements⟩
  | .object [] => by
      simp [tokens, memberTokens, Token.Inner, Token.Sane]
  | .object ((key, t) :: members) => by
      rw [tokens, memberTokens]
      simp only [List.forall_mem_cons, List.forall_mem_append]
      refine ⟨?_, ?_, ?_, inner_tokens t, inner_moreMembers members⟩ <;>
        simp [Token.Inner, Token.Sane]

theorem inner_moreElements : ∀ (elements : List SyntaxTree),
    ∀ token ∈ moreElements elements, token.Inner
  | [] => by simp [moreElements, Token.Inner, Token.Sane]
  | t :: elements => by
      rw [moreElements, List.forall_mem_cons, List.forall_mem_append]
      exact ⟨by simp [Token.Inner, Token.Sane], inner_tokens t, inner_moreElements elements⟩

theorem inner_moreMembers : ∀ (members : List (String × SyntaxTree)),
    ∀ token ∈ moreMembers members, token.Inner
  | [] => by simp [moreMembers, Token.Inner, Token.Sane]
  | (key, t) :: members => by
      rw [moreMembers]
      simp only [List.forall_mem_cons, List.forall_mem_append]
      refine ⟨?_, ?_, ?_, inner_tokens t, inner_moreMembers members⟩ <;>
        simp [Token.Inner, Token.Sane]
end

theorem tokens_ne_nil (t : SyntaxTree) : t.tokens ≠ [] := by
  cases t <;> simp [tokens]

end SyntaxTree

variable {F : FloatText}

theorem tokenize_of_writes {t : SyntaxTree} {text : List Char} (h : t.Writes text) :
    tokenize text = t.tokens ++ [.endOfInput] := by
  obtain ⟨body, htext, hspelled⟩ := h
  have hskip : skipBom text = some body := by
    rcases htext with rfl | rfl
    · exact skipBom_spelled hspelled
    · rfl
  rw [tokenize, hskip]
  exact scanAll_spelled hspelled t.separated (Nat.lt_succ_self _)

theorem writes_of_tokenize {t : SyntaxTree} {text : List Char} {rest : List Token}
    (hend : lastToken rest = .endOfInput) (h : tokenize text = t.tokens ++ rest) :
    t.Writes text := by
  unfold tokenize at h
  split at h
  · obtain ⟨token, more, htokens⟩ := List.exists_cons_of_ne_nil t.tokens_ne_nil
    rw [htokens] at h
    obtain ⟨rfl, -⟩ := List.cons.inj h
    have inner := t.inner_tokens _ (htokens ▸ List.mem_cons_self)
    exact absurd rfl (inner.1 _)
  · rename_i body hskip
    exact ⟨body, skipBom_eq_some hskip,
      spelled_of_scanAll (Nat.lt_succ_self _) t.inner_tokens hend h⟩

theorem text_of_parse {text : String} {v : Json} (h : parse F text = .ok v) :
    ∃ t : SyntaxTree, t.Writes text.toList ∧ t.value? F = some v := by
  unfold parse at h
  split at h
  · cases h
  · rename_i value rest hparse
    split at h
    · rename_i hend
      cases h
      obtain ⟨t, hvalue, htokens⟩ := SyntaxTree.saxParse_iff.mp hparse
      exact ⟨t, writes_of_tokenize hend htokens, hvalue⟩
    · cases h

theorem parse_of_text {text : String} {v : Json} {t : SyntaxTree} (hwrites : t.Writes text.toList)
    (hvalue : t.value? F = some v) : parse F text = .ok v := by
  have hparse := SyntaxTree.saxParse_iff.mpr ⟨t, hvalue, tokenize_of_writes hwrites⟩
  rw [parse, hparse]
  rfl

/-- **The parser accepts JSON texts**, and one that ends at a NUL, and nothing else. -/
theorem parse_iff {text : String} {v : Json} :
    parse F text = .ok v ↔ ∃ t : SyntaxTree, t.Writes text.toList ∧ t.value? F = some v := by
  constructor
  · exact text_of_parse
  · rintro ⟨t, hwrites, hvalue⟩
    exact parse_of_text hwrites hvalue

namespace SyntaxTree

theorem scalar_ordered {s : Scalar} {v : Json} (h : s.value? F = some v) : v.Ordered := by
  cases s with
  | float text =>
    obtain ⟨q, -, rfl⟩ := Option.map_eq_some_iff.mp h
    trivial
  | _ => cases h; trivial

mutual
theorem value?_ordered : ∀ (t : SyntaxTree) {v : Json}, t.value? F = some v → v.Ordered
  | .scalar s, v, h => scalar_ordered h
  | .array elements, v, h => by
      obtain ⟨values, hvalues, rfl⟩ := Option.map_eq_some_iff.mp h
      exact elementValues?_ordered elements hvalues
  | .object members, v, h => by
      obtain ⟨values, hvalues, rfl⟩ := Option.map_eq_some_iff.mp h
      exact @memberValues?_ordered members [] values List.Pairwise.nil trivial hvalues

theorem elementValues?_ordered : ∀ (elements : List SyntaxTree) {values : List Json},
    elementValues? F elements = some values → OrderedElements values
  | [], values, h => by
      cases h
      trivial
  | t :: elements, values, h => by
      obtain ⟨first, hfirst, hrest⟩ := Option.bind_eq_some_iff.mp h
      obtain ⟨more, hmore, rfl⟩ := Option.map_eq_some_iff.mp hrest
      exact ⟨value?_ordered t hfirst, elementValues?_ordered elements hmore⟩

theorem memberValues?_ordered : ∀ (members : List (String × SyntaxTree))
    {before values : List (String × Json)}, (before.map Prod.fst).Pairwise (· < ·) →
    OrderedMembers before → memberValues? F before members = some values →
    (values.map Prod.fst).Pairwise (· < ·) ∧ OrderedMembers values
  | [], before, values, hkeys, hbefore, h => by
      cases h
      exact ⟨hkeys, hbefore⟩
  | (key, t) :: members, before, values, hkeys, hbefore, h => by
      obtain ⟨first, hfirst, hmore⟩ := Option.bind_eq_some_iff.mp h
      exact memberValues?_ordered members (pairwise_insertMember key first hkeys)
        (orderedMembers_insertMember (value?_ordered t hfirst) hbefore) hmore
end

end SyntaxTree

/-- Of two members with one name the last counts. -/
example (F : FloatText) : parse F "\x7b\"a\": 1, \"a\": [-2]\x7d" =
    .ok (.object [("a", .array [.numberInteger (-2)])]) := by
  rfl

/-- What is parsed is as the library keeps values. -/
theorem parse_ordered {text : String} {v : Json} (h : parse F text = .ok v) : v.Ordered := by
  obtain ⟨t, -, hvalue⟩ := text_of_parse h
  exact t.value?_ordered hvalue

end Json
