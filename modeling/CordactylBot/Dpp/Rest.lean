import CordactylBot.Json.Value

/-!
HTTP completions and what D++ makes of them before the bot sees them.

A request completes with a status, a transport error and a body. `cluster::request`
hands that over as it is; a REST call goes through `post_rest`, which parses the
body, replaces the body of an unparsable answer by an error object
(`error_response`), and wraps the rest in a `confirmation_callback_t`, whose
`is_error` looks at status and body only.

`Platform` collects the library code the model does not open: the parser and the
printer, the time functions, the decoders of a whole application, of a whole message and
of Discord's error tree, and what a double outside the target range casts to.
-/

/-- `dpp::http_error`. -/
inductive HttpError where
  | success | unknown | connection | bindIpAddress | read | write | exceedRedirectCount
  | canceled | sslConnection | sslLoadingCerts | sslServerVerification
  | unsupportedMultipartBoundaryChars | compression
deriving DecidableEq, Repr

/-- The enumerator's value, as `std::to_string` prints it. -/
def HttpError.code : HttpError → Nat
  | .success => 0
  | .unknown => 1
  | .connection => 2
  | .bindIpAddress => 3
  | .read => 4
  | .write => 5
  | .exceedRedirectCount => 6
  | .canceled => 7
  | .sslConnection => 8
  | .sslLoadingCerts => 9
  | .sslServerVerification => 10
  | .unsupportedMultipartBoundaryChars => 11
  | .compression => 12

/-- `dpp::http_request_completion_t`, the fields the bot reads. -/
structure HttpRequestCompletion where
  status : UInt16 := 0
  error : HttpError := .success
  body : String := ""
deriving DecidableEq, Repr

/-- `dpp::user`, the fields the bot reads of its own account. -/
structure BotUser where
  id : UInt64 := 0
  username : String := ""
deriving DecidableEq, Repr

/-- `dpp::application`, the fields the bot reads. `icon` is the printed hash. -/
structure Application where
  id : UInt64 := 0
  name : String := ""
  icon : String := ""
  flags : UInt32 := 0
  redirectUris : List String := []
  customInstallUrl : String := ""
  botPublic : Bool := false
  bot : BotUser := {}
  eventWebhooksStatus : UInt8 := 0
deriving DecidableEq, Repr

/-- `dpp::error_info`, the parts the bot reads. -/
structure ErrorInfo where
  code : UInt32 := 0
  humanReadable : String := ""
deriving DecidableEq, Repr

/-- What `message::fill_from_json` looks up in the caches of the library: which users are
known, the guilds of the channels and the members of the guilds. -/
structure Caches where
  users : List UInt64 := []
  channels : List (UInt64 × UInt64) := []
  guilds : List (UInt64 × List UInt64) := []
deriving DecidableEq, Repr

/-- The answer of a REST call, and what the caches hold when it comes. -/
structure Answer extends HttpRequestCompletion where
  caches : Caches := {}
deriving DecidableEq, Repr

instance : Coe Answer HttpRequestCompletion := ⟨Answer.toHttpRequestCompletion⟩

/-- Library code the model takes as it is. Every theorem about the bot holds for
every platform. -/
structure Platform where
  /-- `nlohmann::json::parse`: a value, or the text of the exception it throws. -/
  parse : String → Except String Json
  /-- `dump`. -/
  dump : Json → String
  /-- What a double with no representable truncation casts to, by target width. -/
  castUndefined : Nat → Rat → Nat
  /-- The string case of `ts_not_null`. -/
  parseTimestamp : String → Int
  /-- `std::localtime` and `std::put_time` with the bot's format. -/
  formatTime : Int → String
  /-- `application::fill_from_json` on a default-constructed application. -/
  fillFromJson : Json → Except Exception Application
  /-- `message::fill_from_json` on a default-constructed message reads the value without an
  exception. Users and members that are cached are not read again. -/
  fillMessage : Caches → Json → Bool
  /-- `confirmation_callback_t::get_error` for an answer that is an error. It catches
  every `std::exception` and then answers with an empty `error_info`. -/
  getError : HttpRequestCompletion → ErrorInfo

namespace Platform

variable (P : Platform)

/-- `error_response`: the object an unparsable answer is replaced by. -/
def errorResponse (message : String) (rv : HttpRequestCompletion) : Json :=
  .object
    [("code", .numberUnsigned rv.status.toUInt64),
     ("errors", .object [("json", .object [("0", .object [("body", .object
       [("_errors", .array [.object
         [("code", .string "JSON_PARSE"), ("message", .string rv.body)]])])])])]),
     ("message", .string message)]

/-- `cluster::post_rest`: the parsed body and the completion it passes on. -/
def postRest (rv : HttpRequestCompletion) : Json × HttpRequestCompletion :=
  if rv.error = .success ∧ rv.body ≠ "" then
    match P.parse rv.body with
    | .ok j => (j, rv)
    | .error what =>
        let j := errorResponse what rv
        (j, { rv with body := P.dump j })
  else (.null, rv)

/-- The `http_info` of the confirmation a REST call completes with. -/
def httpInfo (rv : HttpRequestCompletion) : HttpRequestCompletion :=
  (P.postRest rv).2

/-- `confirmation_callback_t::is_error`. -/
def isError (http : HttpRequestCompletion) : Bool :=
  if http.status ≥ 400 then true
  else if http.status = 204 then false
  else
    match P.parse http.body with
    | .error _ => false
    | .ok j =>
        match j.find? "code", j.find? "errors", j.find? "message" with
        | some code, some errors, some message =>
            code.isNumberUnsigned && errors.isObject && message.isString
        | _, _, _ => false

/-- The body parses to an object that looks like an error of Discord. -/
def errorShaped (body : String) : Bool :=
  match P.parse body with
  | .error _ => false
  | .ok j =>
      match j.find? "code", j.find? "errors", j.find? "message" with
      | some code, some errors, some message =>
          code.isNumberUnsigned && errors.isObject && message.isString
      | _, _, _ => false

/-- `message::fill_from_json` of values without members: `(*d)["nonce"]` makes an object of
null and throws on everything else that is none. -/
def fillPlainMessage : Json → Bool
  | .null | .object _ => true
  | _ => false

/-- A platform for runs at fixed inputs: it knows the bodies and the applications of
its tables, times of the first ten seconds of 1970 and no error trees. -/
def ofTable (bodies : List (String × Json)) (applications : List (Json × Application)) :
    Platform where
  parse body :=
    match bodies.lookup body with
    | some j => .ok j
    | none => .error "[json.exception.parse_error.101] parse error"
  dump j := ((bodies.find? fun entry => entry.2 = j).map Prod.fst).getD ""
  castUndefined _ _ := 0
  parseTimestamp _ := 0
  formatTime t := "1970-01-01 00:00:0" ++ toString t ++ " UTC"
  fillFromJson j := .ok (((applications.find? fun entry => entry.1 = j).map Prod.snd).getD {})
  fillMessage _ := fillPlainMessage
  getError _ := {}

@[simp] theorem httpInfo_status (rv : HttpRequestCompletion) :
    (P.httpInfo rv).status = rv.status := by
  unfold httpInfo postRest
  split
  · split <;> rfl
  · rfl

@[simp] theorem httpInfo_error (rv : HttpRequestCompletion) :
    (P.httpInfo rv).error = rv.error := by
  unfold httpInfo postRest
  split
  · split <;> rfl
  · rfl

/-- What `is_error()` looks at. -/
theorem isError_iff (http : HttpRequestCompletion) :
    P.isError http = true ↔
      400 ≤ http.status ∨ http.status ≠ 204 ∧ P.errorShaped http.body = true := by
  unfold isError errorShaped
  split
  · rename_i h
    exact iff_of_true rfl (.inl h)
  · rename_i h
    split
    · rename_i h204
      exact iff_of_false Bool.false_ne_true fun hor => hor.elim h fun hand => hand.1 h204
    · rename_i h204
      exact ⟨fun herror => .inr ⟨h204, herror⟩, fun hor => hor.elim (absurd · h) And.right⟩

end Platform
