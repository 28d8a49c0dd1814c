import CordactylBot.Json.Value
import CordactylBot.Dpp.Strings

/-!
The lexer of the JSON library.

The text is the list of its characters, so that the bytes it is read by are well-formed
UTF-8. A literal, a string or a number is scanned from its first character on; `tokenize`
scans one token after the other up to the end of the input, which a NUL also is, or up to
the first error. An error keeps its `error_message`.
-/

namespace Json

open Dpp (digitValue)

/-- `token_type`, with what the lexer keeps for the token. -/
inductive Token where
  | literalTrue
  | literalFalse
  | literalNull
  | valueString (s : String)
  | valueUnsigned (n : UInt64)
  | valueInteger (n : Int64)
  /-- a number for `strtod` -/
  | valueFloat (text : List Char)
  | beginArray
  | beginObject
  | endArray
  | endObject
  | nameSeparator
  | valueSeparator
  | parseError (message : String)
  | endOfInput
deriving DecidableEq, Repr

/-! ### Strings -/

/-- The names of the control characters. -/
def controlNames : List String :=
  ["NUL", "SOH", "STX", "ETX", "EOT", "ENQ", "ACK", "BEL", "BS", "HT", "LF", "VT", "FF", "CR", "SO",
    "SI", "DLE", "DC1", "DC2", "DC3", "DC4", "NAK", "SYN", "ETB", "CAN", "EM", "SUB", "ESC", "FS",
    "GS", "RS", "US"]

/-- Four upper-case hexadecimal digits. -/
def upperHex (n : Nat) : String :=
  String.ofList ((Numeral.padded 16 4 n).map Char.toUpper)

/-- The message for a control character in a string. -/
def controlMessage (n : Nat) : String :=
  "invalid string: control character U+" ++ upperHex n ++ " (" ++ controlNames.getD n "" ++
    ") must be escaped to \\u" ++ upperHex n ++
    (if n = 8 then " or \\b" else if n = 9 then " or \\t" else if n = 10 then " or \\n"
      else if n = 12 then " or \\f" else if n = 13 then " or \\r" else "")

def noHexDigits : String := "invalid string: '\\u' must be followed by 4 hex digits"

def noLowSurrogate : String :=
  "invalid string: surrogate U+D800..U+DBFF must be followed by U+DC00..U+DFFF"

def noHighSurrogate : String :=
  "invalid string: surrogate U+DC00..U+DFFF must follow U+D800..U+DBFF"

def noEscape : String := "invalid string: forbidden character after backslash"

def noClosingQuote : String := "invalid string: missing closing quote"

/-- `get_codepoint`, and what is left. -/
def getCodepoint : List Char → Option (Nat × List Char)
  | a :: b :: c :: d :: rest => do
      let a ← digitValue a
      let b ← digitValue b
      let c ← digitValue c
      let d ← digitValue d
      return (((a * 16 + b) * 16 + c) * 16 + d, rest)
  | _ => none

def isHighSurrogate (n : Nat) : Bool := 0xD800 ≤ n && n ≤ 0xDBFF

def isLowSurrogate (n : Nat) : Bool := 0xDC00 ≤ n && n ≤ 0xDFFF

/-- A unicode escape, from behind the `u` on. -/
def scanUnicode (input : List Char) : Except String (Char × List Char) :=
  match getCodepoint input with
  | none => .error noHexDigits
  | some (codepoint₁, rest) =>
      if isHighSurrogate codepoint₁ then
        match rest with
        | '\\' :: 'u' :: rest =>
            match getCodepoint rest with
            | none => .error noHexDigits
            | some (codepoint₂, rest) =>
                if isLowSurrogate codepoint₂ then
                  .ok (Char.ofNat (codepoint₁ * 2 ^ 10 + codepoint₂ - 0x35FDC00), rest)
                else .error noLowSurrogate
        | _ => .error noLowSurrogate
      else if isLowSurrogate codepoint₁ then .error noHighSurrogate
      else .ok (Char.ofNat codepoint₁, rest)

/-- The escapes of two characters, by the second. -/
def escapes : List (Char × Char) :=
  [('"', '"'), ('\\', '\\'), ('/', '/'), ('b', '\x08'), ('f', '\x0c'), ('n', '\n'), ('r', '\r'),
    ('t', '\t')]

/-- An escape, from behind the backslash on. -/
def scanEscape : List Char → Except String (Char × List Char)
  | [] => .error noEscape
  | c :: rest =>
      match escapes.lookup c with
      | some escaped => .ok (escaped, rest)
      | none => if c = 'u' then scanUnicode rest else .error noEscape

/-- The next character of a string, and none for the closing quote. -/
def scanCharacter : List Char → Except String (Option Char × List Char)
  | [] => .error noClosingQuote
  | c :: rest =>
      if c = '"' then .ok (none, rest)
      else if c = '\\' then (scanEscape rest).map fun (escaped, rest) => (some escaped, rest)
      else if c.toNat ≤ 0x1F then .error (controlMessage c.toNat)
      else .ok (some c, rest)

/-- `scan_string`, with at most `fuel` characters; `buffer` is reversed. -/
def scanString : Nat → List Char → List Char → Token × List Char
  | 0, _, input => (.parseError noClosingQuote, input)
  | fuel + 1, buffer, input =>
      match scanCharacter input with
      | .error message => (.parseError message, input)
      | .ok (none, rest) => (.valueString (String.ofList buffer.reverse), rest)
      | .ok (some c, rest) => scanString fuel (c :: buffer) rest

/-! ### Numbers -/

inductive NumberType where
  | unsigned | integer | float
deriving DecidableEq, Repr

/-- The states of `scan_number` behind its first character. -/
inductive NumberState where
  | minus | zero | any1 | decimal1 | decimal2 | exponent | sign | any2
deriving DecidableEq, Repr

namespace NumberState

/-- The state a character leads to; none when the number is done or wrong. -/
def next (s : NumberState) (c : Char) : Option NumberState :=
  match s with
  | .minus => if c = '0' then some .zero else if c.isDigit then some .any1 else none
  | .zero =>
      if c = '.' then some .decimal1 else if c = 'e' ∨ c = 'E' then some .exponent else none
  | .any1 =>
      if c.isDigit then some .any1 else if c = '.' then some .decimal1
      else if c = 'e' ∨ c = 'E' then some .exponent else none
  | .decimal1 => if c.isDigit then some .decimal2 else none
  | .decimal2 =>
      if c.isDigit then some .decimal2 else if c = 'e' ∨ c = 'E' then some .exponent else none
  | .exponent =>
      if c = '+' ∨ c = '-' then some .sign else if c.isDigit then some .any2 else none
  | .sign | .any2 => if c.isDigit then some .any2 else none

/-- What is wrong with a number that ends here. -/
def error? : NumberState → Option String
  | .minus => some "invalid number; expected digit after '-'"
  | .decimal1 => some "invalid number; expected digit after '.'"
  | .exponent => some "invalid number; expected '+', '-', or digit after exponent"
  | .sign => some "invalid number; expected digit after exponent sign"
  | _ => none

/-- `number_type`, where a state sets it. -/
def type (s : NumberState) (before : NumberType) : NumberType :=
  match s with
  | .minus => .integer
  | .decimal1 | .exponent => .float
  | _ => before

end NumberState

/-- The conversions at `scan_number_done`: an integer that does not fit is a float. -/
def convert (type : NumberType) (text : List Char) : Token :=
  match type with
  | .unsigned =>
      let x := Nat.ofDigitChars 10 text 0
      if x < 2 ^ 64 then .valueUnsigned (UInt64.ofNat x) else .valueFloat text
  | .integer =>
      let x := Nat.ofDigitChars 10 text.tail 0
      if x ≤ 2 ^ 63 then .valueInteger (Int64.ofInt (-x)) else .valueFloat text
  | .float => .valueFloat text

/-- The rest of `scan_number`; `buffer` is reversed. -/
def scanNumber (s : NumberState) (before : NumberType) (buffer : List Char) :
    List Char → Token × List Char
  | [] =>
      match s.error? with
      | some message => (.parseError message, [])
      | none => (convert (s.type before) buffer.reverse, [])
  | c :: rest =>
      match s.next c with
      | some s' => scanNumber s' (s.type before) (c :: buffer) rest
      | none =>
          match s.error? with
          | some message => (.parseError message, c :: rest)
          | none => (convert (s.type before) buffer.reverse, c :: rest)

/-! ### Tokens -/

/-- The rest of a literal. -/
def scanLiteral (literal : List Char) (token : Token) (input : List Char) : Token × List Char :=
  if literal <+: input then (token, input.drop literal.length)
  else (.parseError "invalid literal", input)

def isWhitespace (c : Char) : Bool :=
  c = ' ' || c = '\t' || c = '\n' || c = '\r'

/-- The tokens of one character. -/
def punctuation : List (Char × Token) :=
  [('[', .beginArray), (']', .endArray), ('{', .beginObject), ('}', .endObject),
    (':', .nameSeparator), (',', .valueSeparator)]

/-- A token, from its first character on. -/
def scanToken (c : Char) (rest : List Char) : Token × List Char :=
  match punctuation.lookup c with
  | some token => (token, rest)
  | none =>
      if c = 't' then scanLiteral "rue".toList .literalTrue rest
      else if c = 'f' then scanLiteral "alse".toList .literalFalse rest
      else if c = 'n' then scanLiteral "ull".toList .literalNull rest
      else if c = '"' then scanString (rest.length + 1) [] rest
      else if c = '-' then scanNumber .minus .unsigned ['-'] rest
      else if c = '0' then scanNumber .zero .unsigned ['0'] rest
      else if c.isDigit then scanNumber .any1 .unsigned [c] rest
      else if c = '\x00' then (.endOfInput, rest)
      else (.parseError "invalid literal", rest)

/-- `scan`, behind the byte order mark. -/
def scan (input : List Char) : Token × List Char :=
  match input.dropWhile isWhitespace with
  | [] => (.endOfInput, [])
  | c :: rest => scanToken c rest

/-- The tokens of a text, with `fuel` for one more than its length. -/
def scanAll : Nat → List Char → List Token
  | 0, _ => []
  | fuel + 1, input =>
      match scan input with
      | (.endOfInput, _) => [.endOfInput]
      | (.parseError message, _) => [.parseError message]
      | (token, rest) => token :: scanAll fuel rest

/-- `skip_bom`. A character from U+F000 to U+FFFF begins with the first byte of the mark. -/
def skipBom : List Char → Option (List Char)
  | [] => some []
  | c :: rest =>
      if c.toNat = 0xFEFF then some rest
      else if 0xF000 ≤ c.toNat ∧ c.toNat ≤ 0xFFFF then none
      else some (c :: rest)

def tokenize (text : List Char) : List Token :=
  match skipBom text with
  | none => [.parseError "invalid BOM; must be 0xEF 0xBB 0xBF if given"]
  | some text => scanAll (text.length + 1) text

end Json
