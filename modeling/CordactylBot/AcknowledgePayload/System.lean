import CordactylBot.JsonWrapper
import CordactylBot.Dpp.Rest
import CordactylBot.Library.Transition
import CordactylBot.Library.EventLog

/-!
The acknowledgement payload and the application it carries (`acknowledge_payload.cpp`).

The object collects merged data in `payload`, which it inherits from `json_wrapper`,
and knows the bot's application. A pull takes the payload, leaves null and adds the
application; a fetch and an edit of the application complete later, with a parsed
body and its `http_info`, and may replace it.

The system interleaves the object's methods in any order, each atomic under its
mutex, with a log of what happened, newest first. What a method throws is logged and
leaves the object as it was; in the callback of a REST call it is D++ that catches.
-/

/-- `acknowledge_payload`, with the `payload` of its base class. -/
structure AcknowledgePayload where
  payload : Json := .null
  currentApplication : Application := {}

namespace AcknowledgePayload

/-- `CUSTOM_INSTALL_URL`. -/
def customInstallUrl : String :=
  "https://discord.com/oauth2/authorize?client_id=1332837776319713300&permissions=19584" ++
    "&response_type=code&redirect_uri=https%3A%2F%2Fcordactyl.com%2Fsetup&integration_type=0" ++
    "&scope=identify+applications.commands+bot"

/-- `ews_enabled` and `ews_disabled`. -/
def ewsEnabled : UInt8 := 2

def ewsDisabled : UInt8 := 1

/-! ### The methods -/

/-- `merge`. -/
def merge (a : AcknowledgePayload) (source : Json) : Except Exception AcknowledgePayload := do
  let payload ← Json.deepMerge a.payload source
  return { a with payload }

/-- A snowflake becomes the string of its decimal digits. -/
def snowflakeJson (id : UInt64) : Json :=
  .string (toString id)

/-- `j[key] = value` under a condition. -/
def assignIf (condition : Bool) (j : Json) (key : String) (value : Json) : Except Exception Json :=
  if condition then j.assign key value else .ok j

/-- The `application` member of a pulled payload. -/
def applicationJson (app : Application) : Except Exception Json := do
  let bot ← Json.null.assign "id" (snowflakeJson app.bot.id)
  let bot ← bot.assign "username" (.string app.bot.username)
  let application ← Json.null.assign "bot" bot
  let application ← application.assign "id" (snowflakeJson app.id)
  let application ← assignIf (app.name ≠ "") application "name" (.string app.name)
  let application ← assignIf (app.icon ≠ "") application "icon" (.string app.icon)
  let application ← assignIf (app.flags ≠ 0) application "flags" (.numberUnsigned app.flags.toUInt64)
  let application ← assignIf (!app.redirectUris.isEmpty) application "redirect_uris"
    (.array (app.redirectUris.map .string))
  let application ← assignIf (app.customInstallUrl ≠ "") application "custom_install_url"
    (.string app.customInstallUrl)
  application.assign "bot_public" (.boolean app.botPublic)

/-- `pull_payload`. -/
def pullPayload (a : AcknowledgePayload) : Except Exception (Json × AcknowledgePayload) := do
  let application ← applicationJson a.currentApplication
  let result ← a.payload.assign "application" application
  return (result, { a with payload := .null })

/-- The body `edit_current_application` sends; nothing is sent when it is empty. -/
def editBody (app : Application) : Except Exception Json := do
  let body ← assignIf (app.eventWebhooksStatus = ewsEnabled) .null "event_webhooks_status"
    (.numberUnsigned ewsDisabled.toUInt64)
  if app.customInstallUrl ≠ customInstallUrl ∧ app.botPublic then
    let body ← body.assign "custom_install_url" (.string customInstallUrl)
    body.assign "install_params" .null
  else return body

variable (P : Platform)

/-- The application D++ or the edit callback parses from a completion. -/
def parsedApplication (rv : HttpRequestCompletion) : Except Exception Application :=
  P.fillFromJson (P.postRest rv).1

/-- `fetch_current_application`, resumed. D++ fills the application before it makes the
confirmation the code tests. -/
def fetched (a : AcknowledgePayload) (rv : HttpRequestCompletion) :
    Except Exception AcknowledgePayload := do
  let application ← parsedApplication P rv
  if P.isError (P.httpInfo rv) then return a
  else return { a with currentApplication := application }

/-- The callback of `edit_current_application`. -/
def edited (a : AcknowledgePayload) (rv : HttpRequestCompletion) :
    Except Exception AcknowledgePayload :=
  let http := P.httpInfo rv
  if http.error ≠ .success ∨ http.status < 200 ∨ http.status ≥ 300 then .ok a
  else do
    let application ← parsedApplication P rv
    return { a with currentApplication := application }

/-- `send_acknowledgement` and `exit` between the completion of the acknowledgement and
its tasks: a 401 in tenant mode pulls the payload for one more acknowledgement. -/
def acknowledged (isCentral : Bool) (a : AcknowledgePayload) (response : HttpRequestCompletion) :
    Except Exception (Option Json × AcknowledgePayload) :=
  if response.status = 401 ∧ isCentral = false then do
    let (body, a) ← a.pullPayload
    return (some body, a)
  else .ok (none, a)

/-! ### Any order of methods -/

inductive Event where
  | merged (source : Json)
  | pulled (result : Json)
  | fetched (rv : HttpRequestCompletion)
  | edited (rv : HttpRequestCompletion)
  /-- a method threw -/
  | threw (e : Exception)
  /-- D++ caught what the callback of a REST call threw -/
  | caught (e : Exception)

/-- The object, how many fetches and edits have not completed, and what happened. -/
structure Object where
  self : AcknowledgePayload := {}
  fetching : Nat := 0
  editing : Nat := 0
  log : List Event := []

inductive Label where
  | merge (source : OrderedJson)
  | pull
  | fetch
  | fetched (rv : HttpRequestCompletion)
  | edit
  | edited (rv : HttpRequestCompletion)

/-- The object after the callback of a REST call, or unchanged if it threw. -/
def Object.settle (o : Object) (result : Except Exception AcknowledgePayload) (e : Event) : Object :=
  match result with
  | .ok self => { o with self, log := e :: o.log }
  | .error x => { o with log := .caught x :: e :: o.log }

def step (o : Object) : Label → Option Object
  | .merge source =>
      match o.self.merge source.value with
      | .ok self => some { o with self, log := .merged source.value :: o.log }
      | .error e => some { o with log := .threw e :: o.log }
  | .pull =>
      match o.self.pullPayload with
      | .ok (result, self) => some { o with self, log := .pulled result :: o.log }
      | .error e => some { o with log := .threw e :: o.log }
  | .fetch => some { o with fetching := o.fetching + 1 }
  | .fetched rv =>
      if o.fetching = 0 then none
      else some ({ o with fetching := o.fetching - 1 }.settle (o.self.fetched P rv) (.fetched rv))
  | .edit =>
      match editBody o.self.currentApplication with
      | .ok body => some (if body.isEmpty then o else { o with editing := o.editing + 1 })
      | .error e => some { o with log := .threw e :: o.log }
  | .edited rv =>
      if o.editing = 0 then none
      else some ({ o with editing := o.editing - 1 }.settle (o.self.edited P rv) (.edited rv))

/-- The system every run of the object's methods is a run of. -/
def system : Transition.System Object Label where
  start := {}
  step := step P

end AcknowledgePayload
