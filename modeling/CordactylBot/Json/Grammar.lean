import CordactylBot.Json.Parser

/-!
The tokens of a JSON text, and what the parser makes of them.

A `SyntaxTree` is a text as it is written: a name may come twice in an object, and a number
too large for 64 bits is still its digits. Its tokens determine the tree, and `saxParse_iff`
says that the parser accepts the tokens of trees and nothing else.
-/

namespace Json

/-- The values that are one token. -/
inductive Scalar where
  | null
  | boolean (b : Bool)
  | string (s : String)
  | unsigned (n : UInt64)
  | integer (n : Int64)
  | float (text : List Char)
deriving DecidableEq, Repr

namespace Scalar

def token : Scalar → Token
  | .null => .literalNull
  | .boolean true => .literalTrue
  | .boolean false => .literalFalse
  | .string s => .valueString s
  | .unsigned n => .valueUnsigned n
  | .integer n => .valueInteger n
  | .float text => .valueFloat text

def value? (F : FloatText) : Scalar → Option Json
  | .null => some .null
  | .boolean b => some (.boolean b)
  | .string s => some (.string s)
  | .unsigned n => some (.numberUnsigned n)
  | .integer n => some (.numberInteger n)
  | .float text => (F.strtod text).map .numberFloat

end Scalar

inductive SyntaxTree where
  | scalar (s : Scalar)
  | array (elements : List SyntaxTree)
  | object (members : List (String × SyntaxTree))

namespace SyntaxTree

mutual
/-- The tokens a tree is written with. -/
def tokens : SyntaxTree → List Token
  | .scalar s => [s.token]
  | .array elements => .beginArray :: elementTokens elements
  | .object members => .beginObject :: memberTokens members

def elementTokens : List SyntaxTree → List Token
  | [] => [.endArray]
  | t :: rest => t.tokens ++ moreElements rest

def moreElements : List SyntaxTree → List Token
  | [] => [.endArray]
  | t :: rest => .valueSeparator :: (t.tokens ++ moreElements rest)

def memberTokens : List (String × SyntaxTree) → List Token
  | [] => [.endObject]
  | (key, t) :: rest => .valueString key :: .nameSeparator :: (t.tokens ++ moreMembers rest)

def moreMembers : List (String × SyntaxTree) → List Token
  | [] => [.endObject]
  | (key, t) :: rest =>
      .valueSeparator :: .valueString key :: .nameSeparator :: (t.tokens ++ moreMembers rest)
end

variable (F : FloatText)

mutual
/-- The value of a tree: of two members with one name the last counts, and a double that is
not finite has no value. -/
def value? : SyntaxTree → Option Json
  | .scalar s => s.value? F
  | .array elements => (elementValues? elements).map .array
  | .object members => (memberValues? [] members).map .object

def elementValues? : List SyntaxTree → Option (List Json)
  | [] => some []
  | t :: rest => t.value?.bind fun v => (elementValues? rest).map (v :: ·)

def memberValues? (before : List (String × Json)) :
    List (String × SyntaxTree) → Option (List (String × Json))
  | [] => some before
  | (key, t) :: rest => t.value?.bind fun v => memberValues? (insertMember key v before) rest
end

variable {F}

/-- No tree begins with the end of an array. -/
theorem tokens_ne_endArray (t : SyntaxTree) (rest more : List Token) :
    t.tokens ++ rest ≠ .endArray :: more := by
  cases t with
  | scalar s => cases s with
    | boolean b => cases b <;> simp [tokens, Scalar.token]
    | _ => simp [tokens, Scalar.token]
  | _ => simp [tokens]

theorem saxParse_scalar {s : Scalar} {v : Json} (h : s.value? F = some v) (stack : List Frame)
    (rest : List Token) :
    saxParse F stack none (s.token :: rest) = saxParse F stack (some v) rest := by
  cases s with
  | float text =>
    obtain ⟨q, hq, rfl⟩ := Option.map_eq_some_iff.mp h
    simp [Scalar.token, saxParse, hq]
  | boolean b => cases h; cases b <;> simp [Scalar.token, saxParse]
  | _ => cases h; simp [Scalar.token, saxParse]

theorem saxParse_beginArray (stack : List Frame) {tokens : List Token}
    (h : ∀ more, tokens ≠ .endArray :: more) :
    saxParse F stack none (.beginArray :: tokens) =
      saxParse F (.array [] :: stack) none tokens := by
  rw [saxParse]
  exact h

mutual
/-- **The tokens of a tree are read as its value.** -/
theorem saxParse_tokens : ∀ (t : SyntaxTree) {v : Json}, t.value? F = some v →
    ∀ (stack : List Frame) (rest : List Token),
      saxParse F stack none (t.tokens ++ rest) = saxParse F stack (some v) rest
  | .scalar s, v, h, stack, rest => saxParse_scalar h stack rest
  | .array [], v, h, stack, rest => by
      cases h
      simp [tokens, elementTokens, saxParse]
  | .array (t :: elements), v, h, stack, rest => by
      rw [value?, elementValues?] at h
      obtain ⟨values, hvalues, rfl⟩ := Option.map_eq_some_iff.mp h
      obtain ⟨first, hfirst, hrest⟩ := Option.bind_eq_some_iff.mp hvalues
      obtain ⟨more, hmore, rfl⟩ := Option.map_eq_some_iff.mp hrest
      rw [tokens, elementTokens, List.cons_append, List.append_assoc,
        saxParse_beginArray stack (tokens_ne_endArray t _), saxParse_tokens t hfirst,
        saxParse_moreElements elements hmore]
      rfl
  | .object [], v, h, stack, rest => by
      cases h
      simp [tokens, memberTokens, saxParse]
  | .object ((key, t) :: members), v, h, stack, rest => by
      rw [value?, memberValues?] at h
      obtain ⟨values, hvalues, rfl⟩ := Option.map_eq_some_iff.mp h
      obtain ⟨first, hfirst, hmore⟩ := Option.bind_eq_some_iff.mp hvalues
      rw [tokens, memberTokens]
      simp only [List.cons_append, List.append_assoc]
      rw [saxParse, saxParse_tokens t hfirst, saxParse_moreMembers members hmore]

theorem saxParse_moreElements : ∀ (elements : List SyntaxTree) {values : List Json},
    elementValues? F elements = some values →
    ∀ {before : List Json} {done : Json} (stack : List Frame) (rest : List Token),
      saxParse F (.array before :: stack) (some done) (moreElements elements ++ rest) =
        saxParse F stack (some (.array (before ++ done :: values))) rest
  | [], values, h, before, done, stack, rest => by
      cases h
      simp [moreElements, saxParse]
  | t :: elements, values, h, before, done, stack, rest => by
      rw [elementValues?] at h
      obtain ⟨first, hfirst, hrest⟩ := Option.bind_eq_some_iff.mp h
      obtain ⟨more, hmore, rfl⟩ := Option.map_eq_some_iff.mp hrest
      rw [moreElements, List.cons_append, List.append_assoc, saxParse, saxParse_tokens t hfirst,
        saxParse_moreElements elements hmore]
      simp

theorem saxParse_moreMembers : ∀ (members : List (String × SyntaxTree))
    {before values : List (String × Json)} {key : String} {done : Json},
    memberValues? F (insertMember key done before) members = some values →
    ∀ (stack : List Frame) (rest : List Token),
      saxParse F (.object before key :: stack) (some done) (moreMembers members ++ rest) =
        saxParse F stack (some (.object values)) rest
  | [], before, values, key, done, h, stack, rest => by
      cases h
      simp [moreMembers, saxParse]
  | (name, t) :: members, before, values, key, done, h, stack, rest => by
      rw [memberValues?] at h
      obtain ⟨first, hfirst, hmore⟩ := Option.bind_eq_some_iff.mp h
      rw [moreMembers]
      simp only [List.cons_append, List.append_assoc]
      rw [saxParse, saxParse_tokens t hfirst, saxParse_moreMembers members hmore]
end

/-! ### Nothing else is read -/

variable (F) in
/-- What the parser reads as a value begins with the tokens of a tree. -/
def ReadsTree (input : List Token) : Prop :=
  ∀ (stack : List Frame) (r : Json × List Token), saxParse F stack none input = .ok r →
    ∃ (t : SyntaxTree) (v : Json) (rest : List Token), t.value? F = some v ∧
      input = t.tokens ++ rest ∧ saxParse F stack (some v) rest = .ok r

theorem exists_moreElements {input : List Token} {before : List Json} {done : Json}
    {stack : List Frame} {r : Json × List Token}
    (reads : ∀ shorter : List Token, shorter.length < input.length → ReadsTree F shorter)
    (h : saxParse F (.array before :: stack) (some done) input = .ok r) :
    ∃ elements values rest, elementValues? F elements = some values ∧
      input = moreElements elements ++ rest ∧
      saxParse F stack (some (.array (before ++ done :: values))) rest = .ok r := by
  induction hn : input.length using Nat.strongRecOn generalizing input before done with
  | ind n ih =>
    rw [saxParse.eq_def] at h
    dsimp only at h
    split at h
    · rename_i rest
      rw [List.length_cons] at hn
      obtain ⟨t, v, rest', hv, rfl, hdone⟩ := reads rest (by simp) _ _ h
      rw [List.length_append] at hn
      obtain ⟨elements, values, rest, hvalues, rfl, hclose⟩ := ih rest'.length (by omega)
        (fun shorter hshorter => reads shorter (by simp; omega)) hdone rfl
      refine ⟨t :: elements, v :: values, rest, ?_, ?_, ?_⟩
      · rw [elementValues?, hv, Option.bind_some, hvalues]
        rfl
      · simp [moreElements]
      · simpa using hclose
    · rename_i rest
      exact ⟨[], [], rest, rfl, rfl, h⟩
    · simp [unexpected] at h

theorem exists_moreMembers {input : List Token} {before : List (String × Json)} {key : String}
    {done : Json} {stack : List Frame} {r : Json × List Token}
    (reads : ∀ shorter : List Token, shorter.length < input.length → ReadsTree F shorter)
    (h : saxParse F (.object before key :: stack) (some done) input = .ok r) :
    ∃ members values rest, memberValues? F (insertMember key done before) members = some values ∧
      input = moreMembers members ++ rest ∧
      saxParse F stack (some (.object values)) rest = .ok r := by
  induction hn : input.length using Nat.strongRecOn generalizing input before key done with
  | ind n ih =>
    rw [saxParse.eq_def] at h
    dsimp only at h
    split at h
    · split at h
      · split at h
        · rename_i name _ rest
          simp only [List.length_cons] at hn
          obtain ⟨t, v, rest', hv, rfl, hdone⟩ := reads rest (by simp; omega) _ _ h
          rw [List.length_append] at hn
          obtain ⟨members, values, rest, hvalues, rfl, hclose⟩ := ih rest'.length (by omega)
            (fun shorter hshorter => reads shorter (by simp; omega)) hdone rfl
          refine ⟨(name, t) :: members, values, rest, ?_, ?_, hclose⟩
          · rw [memberValues?, hv, Option.bind_some, hvalues]
          · simp [moreMembers]
        · simp [unexpected] at h
      · simp [unexpected] at h
    · rename_i rest
      exact ⟨[], _, rest, rfl, rfl, h⟩
    · simp [unexpected] at h

theorem exists_tree (input : List Token) : ReadsTree F input := by
  induction hn : input.length using Nat.strongRecOn generalizing input with
  | ind n ih =>
    have reads : ∀ {limit : Nat}, limit ≤ n → ∀ shorter : List Token, shorter.length < limit →
        ReadsTree F shorter := fun hlimit shorter hshorter => ih _ (by omega) shorter rfl
    intro stack r h
    rw [saxParse.eq_def] at h
    dsimp only at h
    split at h
    -- an object
    · split at h
      · rename_i rest
        exact ⟨.object [], _, rest, rfl, rfl, h⟩
      · split at h
        · rename_i name _ rest
          simp only [List.length_cons] at hn
          obtain ⟨t, v, rest', hv, rfl, hdone⟩ := ih rest.length (by omega) rest rfl _ _ h
          rw [List.length_append] at hn
          obtain ⟨members, values, rest, hvalues, rfl, hclose⟩ :=
            exists_moreMembers (reads (by omega)) hdone
          refine ⟨.object ((name, t) :: members), _, rest, ?_, ?_, hclose⟩
          · rw [value?, memberValues?, hv, Option.bind_some, hvalues]
            rfl
          · simp [tokens, memberTokens]
        · simp [unexpected] at h
      · simp [unexpected] at h
    -- an array
    · split at h
      · rename_i rest
        exact ⟨.array [], _, rest, rfl, rfl, h⟩
      · rename_i rest _ _
        rw [List.length_cons] at hn
        obtain ⟨t, v, rest', hv, rfl, hdone⟩ := ih rest.length (by omega) rest rfl _ _ h
        rw [List.length_append] at hn
        obtain ⟨elements, values, rest, hvalues, rfl, hclose⟩ :=
          exists_moreElements (reads (by omega)) hdone
        refine ⟨.array (t :: elements), _, rest, ?_, ?_, hclose⟩
        · rw [value?, elementValues?, hv, Option.bind_some, hvalues]
          rfl
        · simp [tokens, elementTokens]
    · exact ⟨.scalar (.boolean true), _, _, rfl, rfl, h⟩
    · exact ⟨.scalar (.boolean false), _, _, rfl, rfl, h⟩
    · exact ⟨.scalar .null, _, _, rfl, rfl, h⟩
    · exact ⟨.scalar (.string _), _, _, rfl, rfl, h⟩
    · exact ⟨.scalar (.unsigned _), _, _, rfl, rfl, h⟩
    · exact ⟨.scalar (.integer _), _, _, rfl, rfl, h⟩
    · rename_i text rest
      split at h
      · rename_i q hq
        exact ⟨.scalar (.float text), _, rest, by simp [value?, Scalar.value?, hq], rfl, h⟩
      · cases h
    · unfold noValue at h
      split at h <;> cases h

/-- **The parser accepts the tokens of trees**, and gives their values. -/
theorem saxParse_iff {input rest : List Token} {v : Json} :
    saxParse F [] none input = .ok (v, rest) ↔
      ∃ t : SyntaxTree, t.value? F = some v ∧ input = t.tokens ++ rest := by
  constructor
  · intro h
    obtain ⟨t, v', rest', hv, rfl, hdone⟩ := exists_tree input [] _ h
    rw [saxParse] at hdone
    cases hdone
    exact ⟨t, hv, rfl⟩
  · rintro ⟨t, hv, rfl⟩
    rw [saxParse_tokens t hv, saxParse]

end SyntaxTree

end Json
