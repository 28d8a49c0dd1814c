import CordactylBot.AcknowledgePayload.Payload
import CordactylBot.AcknowledgePayload.Reply
import CordactylBot.Dpp.Timers
import CordactylBot.Messages.Completion

/-!
The bot from its start to the end of its process (`main.cpp`, `signal_handler.cpp`).

The ready event starts a coroutine that fetches the application, posts the startup
acknowledgement, waits until its reply has been handled, and only then starts the
timers for further acknowledgements and fetches. A signal stops the acknowledge timer
by the handle that is known by then, posts the shutdown acknowledgement and sets a
timeout; the completion of that request raises the signal again.

`Bot` holds all of it, with the requests whose completion is outstanding and a log of
what happened, newest first. The labels are what comes from outside: the ready event,
completions, ticks and signals, each at any time and in any order. What runs between
two suspension points, a callback and the signal handler are one step each.
-/

namespace Lifecycle

/-- The acknowledgements, as the panel can tell them apart by the query of their URL. -/
inductive Kind where
  | startup
  | plain
  | shutdown
deriving DecidableEq, Repr

/-- The requests whose completion the bot acts on. -/
inductive Request where
  | fetch (isStartup : Bool)
  | edit
  | acknowledgement (isStartup : Bool)
  | shutdown (signal : Nat)
deriving DecidableEq, Repr

/-- The timers of the bot. -/
inductive Timer where
  | acknowledge
  | fetch
  | timeout
deriving DecidableEq, Repr

/-- Where the startup coroutine stands. -/
inductive Startup where
  | notReady
  | fetching
  | acknowledging
  | processing (call : Nat)
  | finished
deriving DecidableEq, Repr

inductive Status where
  | running
  | exited (code : Nat)
  | killed (signal : Nat)
deriving DecidableEq, Repr

inductive Event where
  /-- `signal_handler` was invoked -/
  | signalled (signal : Nat)
  /-- an acknowledgement was posted -/
  | posted (kind : Kind) (body : Json)
  /-- `send_acknowledgement` got the reply to a startup or a plain acknowledgement -/
  | replied (response : HttpRequestCompletion)
  /-- `std::raise` was called -/
  | raised (signal : Nat)
  /-- a line was logged -/
  | logged (line : String)
  /-- D++ caught what the callback of a REST call threw -/
  | caught (e : Exception)
  /-- an exception left a method of the bot -/
  | escaped (e : Exception)
deriving DecidableEq

/-- `EXIT_INVALID_API_TOKEN`. -/
def exitInvalidApiToken : Nat := 24

/-- `EXIT_FAILURE`. -/
def exitFailure : Nat := 1

/-- `SIGINT` and `SIGTERM`. -/
def sigint : Nat := 2

def sigterm : Nat := 15

/-- The bot. `acknowledgeTimer` is the global of that name, zero before it is assigned. -/
structure Bot where
  acknowledge : AcknowledgePayload := {}
  messages : World := {}
  startup : Startup := .notReady
  timers : Timers Timer := {}
  acknowledgeTimer : Nat := 0
  requests : Std.ExtTreeMap Nat Request compare := ∅
  nextRequest : Nat := 0
  status : Status := .running
  log : List Event := []

namespace Bot

variable (P : Platform) (isCentral : Bool)

def emit (b : Bot) (e : Event) : Bot :=
  { b with log := e :: b.log }

/-- Log lines, the last of them newest. -/
def logLines (b : Bot) (lines : List String) : Bot :=
  { b with log := (lines.map Event.logged).reverse ++ b.log }

/-- Go on with what a method returned, or log the exception that left it. -/
def attempt (b : Bot) : Except Exception Bot → Bot
  | .ok b => b
  | .error e => b.emit (.escaped e)

/-- A request is sent. -/
def request (b : Bot) (r : Request) : Bot :=
  { b with requests := b.requests.insert b.nextRequest r, nextRequest := b.nextRequest + 1 }

/-- A request has completed. -/
def taken (b : Bot) (n : Nat) : Bot :=
  { b with requests := b.requests.erase n }

/-- Pull the payload and post it. -/
def post (b : Bot) (kind : Kind) (r : Request) : Except Exception Bot := do
  let (body, acknowledge) ← b.acknowledge.pullPayload
  return ({ b with acknowledge }.request r).emit (.posted kind body)

/-- `send_acknowledgement`, up to its first suspension point. -/
def sendAcknowledgement (b : Bot) (isStartup : Bool) : Except Exception Bot :=
  b.post (if isStartup then .startup else .plain) (.acknowledgement isStartup)

/-- `acknowledge_payload::exit`. -/
def exit (b : Bot) (signal : Nat) : Except Exception Bot :=
  b.post .shutdown (.shutdown signal)

/-- `edit_current_application`. -/
def editCurrentApplication (b : Bot) : Except Exception Bot := do
  let body ← AcknowledgePayload.editBody b.acknowledge.currentApplication
  return if body.isEmpty then b else b.request .edit

/-- `signal_handler`. -/
def signalHandler (b : Bot) (signal : Nat) : Bot :=
  let b := (b.emit (.signalled signal)).logLines
    ["Stopping Discord-Bot... Signal: " ++ toString signal]
  let b := { b with timers := b.timers.stopTimer b.acknowledgeTimer }
  match b.exit signal with
  | .ok b => { b with timers := b.timers.startTimer .timeout }
  | .error e => b.emit (.escaped e)

/-- What the callback of the shutdown acknowledgement logs. -/
def shutdownLine (response : HttpRequestCompletion) : String :=
  if response.status = 401 then "Acknowledge failed. Invalid API_TOKEN"
  else if response.status ≠ 200 ∨ response.error ≠ .success then
    "Acknowledge failed. Error: " ++ toString response.error.code ++ " Status: " ++
      toString response.status ++ "\nResponse:\n" ++ response.body
  else "Acknowledged successfully!"

/-- The callback of the shutdown acknowledgement. Its signal has its default action by
then, which ends the process. -/
def raise (b : Bot) (signal : Nat) (response : HttpRequestCompletion) : Bot :=
  { (b.logLines [shutdownLine response]).emit (.raised signal) with status := .killed signal }

/-- The callback of the timeout. -/
def timeout (b : Bot) (handle : Nat) : Bot :=
  { b.logLines ["Timeout for acknowledge reached"] with
    timers := b.timers.stopTimer handle
    status := .exited exitFailure }

/-- The startup coroutine, once its acknowledgement has been handled. -/
def finishStartup (b : Bot) : Except Exception Bot := do
  let b ← if isCentral then pure b else b.editCurrentApplication
  return { b with
    timers := (b.timers.startTimer .acknowledge).startTimer .fetch
    acknowledgeTimer := b.timers.nextHandle
    startup := .finished }

/-- The startup coroutine goes on when the call its acknowledgement waits for has
returned. -/
def goOn (b : Bot) : Bot :=
  match b.startup with
  | .processing call =>
      if .returned call ∈ b.messages.log then b.attempt (b.finishStartup isCentral) else b
  | _ => b

/-- `send_acknowledgement`, from the body of the reply to its end or the call of
`process_new_messages`. -/
def handleBody (b : Bot) (isStartup : Bool) (response : HttpRequestCompletion) (now : Int)
    (storage : Nat → UInt64) : Bot :=
  match AcknowledgePayload.readBody P response with
  | .error e => b.emit (.escaped e)
  | .ok (lines, none) =>
      let b := b.logLines lines
      if isStartup then b.attempt (b.finishStartup isCentral) else b
  | .ok (lines, some messages) =>
      let b := b.logLines lines
      let call := b.messages.nextCall
      let b := { b with
        messages := (b.messages.deliver messages).processNewMessages P now storage call messages }
      if isStartup then { b with startup := .processing call }.goOn isCentral else b

/-- A reply has come, and its status has been logged. -/
def replied (b : Bot) (response : HttpRequestCompletion) : Bot :=
  (b.emit (.replied response)).logLines (AcknowledgePayload.statusLines response)

/-- `send_acknowledgement`, resumed with the reply. The call `exit(EXIT_INVALID_API_TOKEN)`
in it is the member function's. -/
def handleReply (b : Bot) (isStartup : Bool) (response : HttpRequestCompletion) (now : Int)
    (storage : Nat → UInt64) : Bot :=
  let b := b.replied response
  if response.status = 401 ∧ isCentral = false then
    match b.exit exitInvalidApiToken with
    | .ok b => b.handleBody P isCentral isStartup response now storage
    | .error e => b.emit (.escaped e)
  else b.handleBody P isCentral isStartup response now storage

/-- `fetch_current_application`, resumed, and the startup coroutine up to its next
suspension point. When D++ cannot fill an application, nothing is resumed. -/
def handleFetch (b : Bot) (isStartup : Bool) (response : HttpRequestCompletion) : Bot :=
  match b.acknowledge.fetched P response with
  | .error e => b.emit (.caught e)
  | .ok acknowledge =>
      let b := { b with acknowledge }.logLines
        (if P.isError (P.httpInfo response) then ["Failed to get current application"] else [])
      if isStartup then
        let b := { b with startup := .acknowledging }
        b.attempt (b.sendAcknowledgement true)
      else b

/-- The callback of `edit_current_application`. -/
def handleEdit (b : Bot) (response : HttpRequestCompletion) : Bot :=
  let http := P.httpInfo response
  let b := b.logLines
    (if http.error ≠ .success ∨ http.status < 200 ∨ http.status ≥ 300 then
      ["Failed to edit application. HTTP " ++ toString http.status ++ "\nResponse: " ++ http.body]
    else [])
  match b.acknowledge.edited P response with
  | .error e => b.emit (.caught e)
  | .ok acknowledge => { b with acknowledge }

/-- A timer is due. -/
def tick (b : Bot) (handle : Nat) (timer : Timer) : Bot :=
  if handle ∈ b.timers.deletedTimers then { b with timers := b.timers.drop handle }
  else
    match timer with
    | .acknowledge => b.attempt (b.sendAcknowledgement false)
    | .fetch => b.request (.fetch false)
    | .timeout => b.timeout handle

/-- The ready event; `run_once` lets the first one start up. -/
def ready (b : Bot) : Bot :=
  match b.startup with
  | .notReady => { b with startup := .fetching }.request (.fetch true)
  | _ => b

/-- A request completes. -/
def complete (b : Bot) (r : Request) (response : HttpRequestCompletion) (now : Int)
    (storage : Nat → UInt64) : Bot :=
  match r with
  | .fetch isStartup => b.handleFetch P isStartup response
  | .edit => b.handleEdit P response
  | .acknowledgement isStartup => b.handleReply P isCentral isStartup response now storage
  | .shutdown signal => b.raise signal response

end Bot

/-- What happens from outside. -/
inductive Label where
  | ready
  | completed (request : Nat) (response : HttpRequestCompletion) (now : Int)
    (storage : Nat → UInt64)
  /-- a remote call of a suspended `process_new_messages` completes -/
  | resumed (call : Nat) (result : Answer) (now : Int) (storage : Nat → UInt64)
  /-- the channel for the direct message of a suspended call is created -/
  | created (call : Nat) (result : HttpRequestCompletion)
  /-- the API answers a report -/
  | reportAnswered (report : Nat) (response : HttpRequestCompletion)
  | tick (handle : Nat)
  | signal (signal : Nat)

variable (P : Platform) (isCentral : Bool)

def step (b : Bot) (l : Label) : Option Bot :=
  if b.status ≠ .running then none
  else
    match l with
    | .ready => some b.ready
    | .completed n response now storage =>
        b.requests[n]?.map fun r => (b.taken n).complete P isCentral r response now storage
    | .resumed call result now storage =>
        (Messages.step P b.messages (.complete call result now storage)).map fun messages =>
          { b with messages }.goOn isCentral
    | .created call result =>
        (Messages.step P b.messages (.created call result)).map fun messages => { b with messages }
    | .reportAnswered n response =>
        (Messages.step P b.messages (.answer n response)).map fun messages => { b with messages }
    | .tick handle => b.timers.nextTimer[handle]?.map fun timer => b.tick handle timer
    | .signal signal =>
        if signal = sigint ∨ signal = sigterm then some (b.signalHandler signal) else none

/-- The system every run of the bot is a run of; `isCentral` says whether `IS_CENTRAL` is set. -/
def system : Transition.System Bot Label where
  start := {}
  step := step P isCentral

end Lifecycle
