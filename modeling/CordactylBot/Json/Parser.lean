import CordactylBot.Json.Lexer
import CordactylBot.Json.Ordered

/-!
The parser of the JSON library.

`sax_parse_internal` is a loop over the tokens with a stack of the containers it is in; the
handlers of `json_sax_dom_parser` put the values into them. Here a container stays on the
stack until it is closed, and is then put where it belongs.

What `strtod` reads and what a double is written as are parameters; every theorem holds for
all of them.
-/

namespace Json

/-- What the library takes from elsewhere to read and to write doubles. -/
structure FloatText where
  /-- `strtod`; none for what is not finite -/
  strtod : List Char → Option Rat
  /-- `to_chars` -/
  toChars : Rat → List Char

/-- `token_type_name`. -/
def Token.typeName : Token → String
  | .literalTrue => "true literal"
  | .literalFalse => "false literal"
  | .literalNull => "null literal"
  | .valueString _ => "string literal"
  | .valueUnsigned _ | .valueInteger _ | .valueFloat _ => "number literal"
  | .beginArray => "'['"
  | .beginObject => "'\x7b'"
  | .endArray => "']'"
  | .endObject => "'\x7d'"
  | .nameSeparator => "':'"
  | .valueSeparator => "','"
  | .parseError _ => "<parse error>"
  | .endOfInput => "end of input"

inductive ParseError where
  /-- `parse_error.101`, with its `exception_message` -/
  | syntaxError (message : String)
  /-- `out_of_range.406` -/
  | numberOverflow (message : String)
deriving DecidableEq, Repr

/-- The next token of a list; there is always one more end of input. -/
def lastToken (tokens : List Token) : Token :=
  tokens.headD .endOfInput

/-- `exception_message`, without the text that was last read. -/
def exceptionMessage (last : Token) (expected : Option String) (context : String) : String :=
  "syntax error while parsing " ++ context ++ " - " ++
    (match last with
      | .parseError message => message
      | last => "unexpected " ++ last.typeName) ++
    (match expected with
      | none => ""
      | some expected => "; expected " ++ expected)

def unexpected {β : Type} (tokens : List Token) (expected : Token) (context : String) :
    Except ParseError β :=
  .error (.syntaxError (exceptionMessage (lastToken tokens) expected.typeName context))

/-- A token where a value should begin. -/
def noValue {β : Type} (tokens : List Token) : Except ParseError β :=
  match lastToken tokens with
  | .parseError message =>
      .error (.syntaxError (exceptionMessage (.parseError message) none "value"))
  | last =>
      .error (.syntaxError (exceptionMessage last (some "'[', '\x7b', or a literal") "value"))

/-- A container the parser is in, and in an object the key of the next value. -/
inductive Frame where
  | array (elements : List Json)
  | object (members : List (String × Json)) (key : String)

variable (F : FloatText)

/-- The loop of `sax_parse_internal`: it looks at the token of a value, or has come to the end
of `done`. -/
def saxParse : List Frame → Option Json → List Token → Except ParseError (Json × List Token)
  | stack, none, tokens =>
      match tokens with
      | .beginObject :: rest =>
          match rest with
          | .endObject :: rest => saxParse stack (some (.object [])) rest
          | .valueString key :: rest =>
              match rest with
              | .nameSeparator :: rest => saxParse (.object [] key :: stack) none rest
              | rest => unexpected rest .nameSeparator "object separator"
          | rest => unexpected rest (.valueString "") "object key"
      | .beginArray :: rest =>
          match rest with
          | .endArray :: rest => saxParse stack (some (.array [])) rest
          | rest => saxParse (.array [] :: stack) none rest
      | .literalTrue :: rest => saxParse stack (some (.boolean true)) rest
      | .literalFalse :: rest => saxParse stack (some (.boolean false)) rest
      | .literalNull :: rest => saxParse stack (some .null) rest
      | .valueString s :: rest => saxParse stack (some (.string s)) rest
      | .valueUnsigned n :: rest => saxParse stack (some (.numberUnsigned n)) rest
      | .valueInteger n :: rest => saxParse stack (some (.numberInteger n)) rest
      | .valueFloat text :: rest =>
          match F.strtod text with
          | some q => saxParse stack (some (.numberFloat q)) rest
          | none =>
              .error (.numberOverflow ("number overflow parsing '" ++ String.ofList text ++ "'"))
      | tokens => noValue tokens
  | [], some done, tokens => .ok (done, tokens)
  | .array elements :: stack, some done, tokens =>
      match tokens with
      | .valueSeparator :: rest => saxParse (.array (elements ++ [done]) :: stack) none rest
      | .endArray :: rest => saxParse stack (some (.array (elements ++ [done]))) rest
      | tokens => unexpected tokens .endArray "array"
  | .object members key :: stack, some done, tokens =>
      match tokens with
      | .valueSeparator :: rest =>
          match rest with
          | .valueString key' :: rest =>
              match rest with
              | .nameSeparator :: rest =>
                  saxParse (.object (insertMember key done members) key' :: stack) none rest
              | rest => unexpected rest .nameSeparator "object separator"
          | rest => unexpected rest (.valueString "") "object key"
      | .endObject :: rest => saxParse stack (some (.object (insertMember key done members))) rest
      | tokens => unexpected tokens .endObject "object"

/-- `json::parse`. -/
def parse (text : String) : Except ParseError Json :=
  match saxParse F [] none (tokenize text.toList) with
  | .error e => .error e
  | .ok (value, rest) =>
      match lastToken rest with
      | .endOfInput => .ok value
      | _ => unexpected rest .endOfInput "value"

end Json
