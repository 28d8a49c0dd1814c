import CordactylBot.QueuedMessages
import CordactylBot.Dpp.Fill
import CordactylBot.Library.Transition
import CordactylBot.Library.EventLog

/-!
The calls of `process_new_messages` and their reports, interleaved.

A call runs from one `co_await` to the next without interruption: the coroutine's
frame (`Frame`) is what it keeps across a suspension point, and a completion
resumes it. `World` holds the cache, the suspended calls and the reports whose
answer is outstanding, and a log of what happened, newest first. The labels are
what happens from outside: an acknowledgement delivers a JSON value to a new call,
a remote call a suspended coroutine waits for completes, the channel a direct
message needs is created, the API answers a report. Each may come at any time, in
any order, or never.

An answer is read before it is handed on. One that cannot be read leaves its call
suspended for good (`lose`): what reading it throws is caught by the request queue,
and nothing else resumes the coroutine.

* `step_cases` — everything one step can do.
* `nextMessage_rule` — the rule for the loop of a running call.
-/

open Dpp
open QueuedMessage (Await)

/-- A suspended call: the message being sent, what the send waits for, and the
elements its loop has not reached. -/
structure Frame where
  message : QueuedMessage
  awaiting : Await
  rest : List Json

/-- A posted report whose answer is outstanding. -/
structure Report where
  call : Nat
  used : List UInt64
  entries : List QueuedMessage
  body : Json

/-- What happens, in the terms the panel and Discord could observe. A call's
elements are told apart by `position`, the number of elements after them. -/
inductive Event where
  /-- an acknowledgement delivered `messages` to a new call -/
  | delivered (call : Nat) (messages : Json)
  /-- the constructor threw on an element; its text was logged -/
  | rejected (call position : Nat) (what : String)
  /-- `guild_get_member` was issued for a message -/
  | memberLookup (call position : Nat) (id : UInt64)
  /-- `direct_message_create` was issued for a message -/
  | directMessage (call position : Nat) (id : UInt64)
  /-- `send_to_discord` completed -/
  | sent (call position : Nat) (message : QueuedMessage)
  /-- `store` inserted the message under a new key -/
  | stored (message : QueuedMessage)
  /-- a sweep erased the entry -/
  | discarded (message : QueuedMessage)
  /-- a report about `entries` was posted -/
  | reported (call report : Nat) (entries : List QueuedMessage)
  /-- the API answered a report -/
  | answered (report : Nat) (response : HttpRequestCompletion)
  /-- the answer of a report erased the entry -/
  | acknowledged (report : Nat) (message : QueuedMessage)
  /-- a call returned -/
  | returned (call : Nat)
  /-- an exception left a call -/
  | escaped (call : Nat) (e : Exception)
deriving DecidableEq

/-- D++ fills a member from the answer of the lookup and a message from that of the direct
message. -/
def QueuedMessage.Await.reads (P : Platform) (awaiting : Await) (answer : Answer) : Bool :=
  let j := (P.postRest answer).1
  match awaiting with
  | .memberLookup => guildMemberReadable j
  | .directMessage => P.fillMessage answer.caches j

/-- `lost` has the suspended calls that an answer came for which could not be read. -/
structure World where
  cache : ProcessedMessageCache := {}
  calls : Std.ExtTreeMap Nat Frame compare := ∅
  lost : List Nat := []
  reports : Std.ExtTreeMap Nat Report compare := ∅
  nextCall : Nat := 0
  nextReport : Nat := 0
  log : List Event := []

namespace World

variable (P : Platform)

def emit (w : World) (e : Event) : World :=
  { w with log := e :: w.log }

/-- A new call starts. -/
def deliver (w : World) (messages : Json) : World :=
  { w with nextCall := w.nextCall + 1, log := .delivered w.nextCall messages :: w.log }

/-- The send of a message suspends at its member lookup. -/
def awaitMember (w : World) (call : Nat) (m : QueuedMessage) (rest : List Json) : World :=
  { w with
    calls := w.calls.insert call ⟨m, .memberLookup, rest⟩
    log := .memberLookup call rest.length m.id :: w.log }

/-- The send of a message suspends at its direct message. -/
def awaitDirectMessage (w : World) (call : Nat) (m : QueuedMessage) (rest : List Json) : World :=
  { w with
    calls := w.calls.insert call ⟨m, .directMessage, rest⟩
    log := .directMessage call rest.length m.id :: w.log }

/-- `send_to_discord` completed, its call runs on. -/
def sent (w : World) (call position : Nat) (m : QueuedMessage) : World :=
  { w with calls := w.calls.erase call, log := .sent call position m :: w.log }

/-- `store`. -/
def store (w : World) (m : QueuedMessage) : World :=
  { w with
    cache := w.cache.store m
    log := if w.cache.cacheMap[m.id]?.isNone then .stored m :: w.log else w.log }

/-- `clear_garbage_and_increase_tries`. -/
def sweep (w : World) : World :=
  { w with
    cache := w.cache.clearGarbageAndIncreaseTries
    log := w.cache.garbage.map .discarded ++ w.log }

/-- Snapshot the cache and post the report about it. -/
def request (w : World) (call : Nat) (body : Json) : World :=
  { w with
    reports := w.reports.insert w.nextReport
      { call, used := w.cache.usedQueuedMessages, entries := w.cache.snapshot, body }
    nextReport := w.nextReport + 1
    log := .reported call w.nextReport w.cache.snapshot :: w.log }

/-- The part of `process_new_messages` after its loop. -/
def finishBatch (now : Int) (call : Nat) (w : World) : World :=
  let w := w.sweep
  match w.cache.reportBody P now with
  | .ok body => (w.request call body).emit (.returned call)
  | .error e => w.emit (.escaped call e)

/-- The loop of `process_new_messages` from its next element to the next
suspension point. The `try` block turns an exception of the constructor into a
log line. -/
def nextMessage (now : Int) (storage : Nat → UInt64) (call : Nat) : List Json → World → World
  | [], w => w.finishBatch P now call
  | message :: rest, w =>
      match QueuedMessage.ofJson P now (storage rest.length) message with
      | .ok qm => w.awaitMember call qm rest
      | .error e => nextMessage now storage call rest (w.emit (.rejected call rest.length e.what))

/-- `process_new_messages`, from its start. -/
def processNewMessages (now : Int) (storage : Nat → UInt64) (call : Nat) (messages : Json)
    (w : World) : World :=
  match messages with
  | .array [] => w.emit (.returned call)
  | .array elements => w.nextMessage P now storage call elements
  | _ => w.emit (.returned call)

/-- A suspended call goes on with the completion it waited for, which has been read. -/
def resume (now : Int) (storage : Nat → UInt64) (call : Nat) (frame : Frame)
    (result : Answer) (w : World) : World :=
  match frame.message.sendToDiscord P now frame.awaiting (P.httpInfo result) with
  | .suspended qm => w.awaitDirectMessage call qm frame.rest
  | .returned qm =>
      ((w.sent call frame.rest.length qm).store qm).nextMessage P now storage call frame.rest

/-- The suspended call, when its coroutine can still be resumed. -/
def waiting (w : World) (call : Nat) : Option Frame :=
  if call ∈ w.lost then none else w.calls[call]?

/-- The answer a call waits for could not be read. -/
def lose (w : World) (call : Nat) : World :=
  { w with lost := call :: w.lost }

/-- The entries the answer of a report erases. -/
def acknowledgedBy (w : World) (r : Report) (response : HttpRequestCompletion) :
    List QueuedMessage :=
  if ProcessedMessageCache.accepted response then
    w.cache.snapshot.filter fun m => m.id ∈ r.used
  else []

/-- The completion callback of a report. -/
def answer (w : World) (n : Nat) (r : Report) (response : HttpRequestCompletion) : World :=
  { w with
    cache := w.cache.reported r.used response
    reports := w.reports.erase n
    log := (w.acknowledgedBy r response).map (.acknowledged n) ++ .answered n response :: w.log }

end World

/-- What happens from outside. `now` is what `std::time` reads during the step and
`storage` what the memory of a message's `id` held before construction, by the
position of its element. `created` is the answer to the creation of a channel, which
`direct_message_create` makes when it knows none; it posts the message next. -/
inductive Label where
  | deliver (messages : Json) (now : Int) (storage : Nat → UInt64)
  | complete (call : Nat) (result : Answer) (now : Int) (storage : Nat → UInt64)
  | created (call : Nat) (result : HttpRequestCompletion)
  | answer (report : Nat) (response : HttpRequestCompletion)

namespace Messages

open World

variable (P : Platform)

def step (w : World) : Label → Option World
  | .deliver messages now storage =>
      some ((w.deliver messages).processNewMessages P now storage w.nextCall messages)
  | .complete call result now storage =>
      (w.waiting call).map fun frame =>
        if frame.awaiting.reads P result then w.resume P now storage call frame result
        else w.lose call
  | .created call result =>
      (w.waiting call).bind fun frame =>
        match frame.awaiting with
        | .memberLookup => none
        | .directMessage =>
            if (Channel.ofJson (P.postRest result).1).isSome then some w else some (w.lose call)
  | .answer n response =>
      w.reports[n]?.map fun r => w.answer n r response

/-- The system every run of the message processing is a run of. -/
def system : Transition.System World Label where
  start := {}
  step := step P

/-! ### Inputs to evaluate runs on -/

/-- A member whose roles are no strings: it cannot be read. -/
def numberedRoles : Answer where
  status := 200
  body := "\x7b\x22roles\x22:[1]\x7d"

/-- The bodies of the sample completions, read. -/
def samplePlatform : Platform :=
  .ofTable [("\x7b\x7d", .object []),
    (numberedRoles.body, .object [("roles", .array [.numberUnsigned 1])])] []

/-- An element the constructor accepts. -/
def sampleMessage (id : UInt64) : Json :=
  .object
    [("embed", .object []), ("guild_id", .numberUnsigned 5), ("id", .numberUnsigned id),
     ("recipient", .numberUnsigned 9)]

/-- An acknowledgement lists one message, at time `now`. -/
def listMessage (id : UInt64) (now : Int) : Label :=
  .deliver (.array [sampleMessage id]) now fun _ => 0

/-- The remote call of `call` completes with `status`, at time `now`. -/
def completeWith (call : Nat) (status : UInt16) (now : Int) : Label :=
  .complete call { status, body := if status < 400 then "\x7b\x7d" else "" } now fun _ => 0

example : QueuedMessage.ofJson samplePlatform 1 0 (sampleMessage 7) =
    .ok { id := 7, guildId := 5, recipient := 9, embed := {}, processedAt := 1 } := by
  decide +kernel

/-! ### Everything a step can do -/

variable {P}

theorem finishBatch_eq (now : Int) (call : Nat) (w : World) :
    w.finishBatch P now call =
      (w.sweep.request call (.object [("messages",
        .array (w.sweep.cache.snapshot.map (ProcessedMessageCache.entryJson P now)))])).emit
          (.returned call) := by
  simp only [finishBatch, ProcessedMessageCache.reportBody_eq]

theorem waiting_eq_some {w : World} {call : Nat} {frame : Frame} :
    w.waiting call = some frame ↔ call ∉ w.lost ∧ w.calls[call]? = some frame := by
  unfold waiting
  split
  · rename_i h
    simp [h]
  · rename_i h
    simp [h]

/-- The answer takes the suspended call on. -/
structure Taken (P : Platform) (w : World) (call : Nat) (result : Answer) (frame : Frame) :
    Prop where
  waits : call ∉ w.lost
  suspended : w.calls[call]? = some frame
  read : frame.awaiting.reads P result = true

/-- The call waits for an answer that came with the label and cannot be read. -/
def Unread (P : Platform) (w : World) (call : Nat) (frame : Frame) (l : Label) : Prop :=
  w.waiting call = some frame ∧
    ((∃ result now storage, l = .complete call result now storage ∧
        frame.awaiting.reads P result = false) ∨
      ∃ result, l = .created call result ∧ frame.awaiting = .directMessage ∧
        Channel.ofJson (P.postRest result).1 = none)

/-- A call that goes on issues its direct message, or its send completes. -/
theorem resume_cases (w : World) (now : Int) (storage : Nat → UInt64) (call : Nat) (frame : Frame)
    (result : Answer) :
    (∃ m, frame.awaiting = .memberLookup ∧ m.id = frame.message.id ∧
      m.tries = frame.message.tries ∧
      w.resume P now storage call frame result = w.awaitDirectMessage call m frame.rest) ∨
    (∃ m, frame.message.sendToDiscord P now frame.awaiting (P.httpInfo result) = .returned m ∧
      m.id = frame.message.id ∧ m.tries = frame.message.tries ∧
      w.resume P now storage call frame result =
        ((w.sent call frame.rest.length m).store m).nextMessage P now storage call frame.rest) := by
  unfold resume
  split
  · rename_i m hm
    obtain ⟨hid, htries⟩ := QueuedMessage.sendToDiscord_kept P (.inr hm)
    refine .inl ⟨m, ?_, hid, htries, rfl⟩
    cases hawait : frame.awaiting with
    | memberLookup => rfl
    | directMessage =>
      -- behind the direct message a send completes
      obtain ⟨m', hm'⟩ :=
        QueuedMessage.sendToDiscord_directMessage P now frame.message (P.httpInfo result)
      rw [hawait, hm'] at hm
      cases hm
  · rename_i m hm
    obtain ⟨hid, htries⟩ := QueuedMessage.sendToDiscord_kept P (.inl hm)
    exact .inr ⟨m, hm, hid, htries, rfl⟩

/-- **Step inversion.** A step starts a call on a value that is no non-empty array
and does nothing else, or starts one on a non-empty array, or moves a send from
its lookup to its direct message, or completes a send, or hands a report its
answer, or loses a call whose answer cannot be read, or creates a channel. -/
theorem step_cases {w w' : World} {l : Label} (h : step P w l = some w') :
    (∃ messages now storage, l = .deliver messages now storage ∧
      w' = (w.deliver messages).emit (.returned w.nextCall) ∧
      ∀ elements, messages = .array elements → elements = []) ∨
    (∃ elements now storage, l = .deliver (.array elements) now storage ∧ elements ≠ [] ∧
      w' = (w.deliver (.array elements)).nextMessage P now storage w.nextCall elements) ∨
    (∃ call result now storage frame m, l = .complete call result now storage ∧
      Taken P w call result frame ∧ frame.awaiting = .memberLookup ∧
      m.id = frame.message.id ∧ m.tries = frame.message.tries ∧
      w' = w.awaitDirectMessage call m frame.rest) ∨
    (∃ call result now storage frame m, l = .complete call result now storage ∧
      Taken P w call result frame ∧
      frame.message.sendToDiscord P now frame.awaiting (P.httpInfo result) = .returned m ∧
      m.id = frame.message.id ∧ m.tries = frame.message.tries ∧
      w' = ((w.sent call frame.rest.length m).store m).nextMessage P now storage call
        frame.rest) ∨
    (∃ n response r, l = .answer n response ∧ w.reports[n]? = some r ∧
      w' = w.answer n r response) ∨
    (∃ call frame, Unread P w call frame l ∧ w' = w.lose call) ∨
    (∃ call result, l = .created call result ∧ w' = w) := by
  cases l with
  | deliver messages now storage =>
    simp only [step, Option.some.injEq] at h
    subst h
    unfold processNewMessages
    split
    · exact .inl ⟨_, now, storage, rfl, rfl, fun _ h => (Json.array.inj h).symm⟩
    · rename_i elements hne
      exact .inr (.inl ⟨elements, now, storage, rfl, fun h => hne (h ▸ rfl), rfl⟩)
    · rename_i hne
      exact .inl ⟨_, now, storage, rfl, rfl, fun elements h => absurd h (hne elements)⟩
  | complete call result now storage =>
    simp only [step, Option.map_eq_some_iff] at h
    obtain ⟨frame, hframe, rfl⟩ := h
    split
    · rename_i hread
      obtain ⟨hwaits, hsuspended⟩ := waiting_eq_some.mp hframe
      have taken : Taken P w call result frame := ⟨hwaits, hsuspended, hread⟩
      obtain ⟨m, lookup, hid, htries, hresume⟩ | ⟨m, hm, hid, htries, hresume⟩ :=
        resume_cases (P := P) w now storage call frame result
      · exact .inr (.inr (.inl
          ⟨call, result, now, storage, frame, m, rfl, taken, lookup, hid, htries, hresume⟩))
      · exact .inr (.inr (.inr (.inl
          ⟨call, result, now, storage, frame, m, rfl, taken, hm, hid, htries, hresume⟩)))
    · rename_i hread
      rw [Bool.not_eq_true] at hread
      exact .inr (.inr (.inr (.inr (.inr (.inl
        ⟨call, frame, ⟨hframe, .inl ⟨result, now, storage, rfl, hread⟩⟩, rfl⟩)))))
  | created call result =>
    simp only [step, Option.bind_eq_some_iff] at h
    obtain ⟨frame, hframe, h⟩ := h
    split at h
    · cases h
    · rename_i hawait
      split at h
      · cases h
        exact .inr (.inr (.inr (.inr (.inr (.inr ⟨call, result, rfl, rfl⟩)))))
      · rename_i hread
        cases h
        rw [Option.not_isSome_iff_eq_none] at hread
        exact .inr (.inr (.inr (.inr (.inr (.inl
          ⟨call, frame, ⟨hframe, .inr ⟨result, rfl, hawait, hread⟩⟩, rfl⟩)))))
  | answer n response =>
    simp only [step, Option.map_eq_some_iff] at h
    obtain ⟨r, hr, rfl⟩ := h
    exact .inr (.inr (.inr (.inr (.inl ⟨n, response, r, rfl, hr, rfl⟩))))

/-- The loop rule: `I` describes the running call by the elements it has left, `J`
the world once the call is suspended or over. -/
theorem nextMessage_rule {I : List Json → World → Prop} {J : World → Prop} {now : Int}
    {storage : Nat → UInt64} {call : Nat}
    (reject : ∀ message rest w e,
      QueuedMessage.ofJson P now (storage rest.length) message = .error e → I (message :: rest) w →
      I rest (w.emit (.rejected call rest.length e.what)))
    (suspend : ∀ message rest w m, QueuedMessage.ofJson P now (storage rest.length) message = .ok m →
      I (message :: rest) w → J (w.awaitMember call m rest))
    (finish : ∀ w, I [] w → J (w.finishBatch P now call)) :
    ∀ elements w, I elements w → J (w.nextMessage P now storage call elements)
  | [], w, h => finish w h
  | message :: rest, w, h => by
      unfold nextMessage
      split
      · rename_i m hm
        exact suspend message rest w m hm h
      · rename_i e he
        exact nextMessage_rule reject suspend finish rest _ (reject message rest w e he h)

end Messages
