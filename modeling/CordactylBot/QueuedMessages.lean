import CordactylBot.Dpp.Embed
import Mathlib.Tactic.Common

/-!
Queued messages and the cache of processed ones (`queued_messages.cpp`).

A queued message is an array element of an acknowledgement reply. The constructor
reads it (`QueuedMessage.ofJson`), `send_to_discord` looks its recipient up and
sends it as a direct message (`sendToDiscord`), and its outcome waits in
`processed_message_cache` until a report about it is accepted. The cache
operations here are the object's methods; how the calls of
`process_new_messages` interleave is the next module.

* `getElem?_store`, `getElem?_clearGarbageAndIncreaseTries`, `getElem?_reported` —
  what one operation leaves under a key.
* `reportBody_eq` — building the report body never throws, and what it contains.
-/

open Dpp

/-- `queued_message_error`. -/
structure QueuedMessageError where
  code : UInt32
  status : UInt16
deriving DecidableEq, Repr

def QueuedMessageError.ofCallback (P : Platform) (callback : HttpRequestCompletion) :
    QueuedMessageError where
  code := (P.getError callback).code
  status := callback.status

/-- `queued_message`. `tries` never gets past 4, so its width does not matter. -/
structure QueuedMessage where
  id : UInt64
  guildId : UInt64
  recipient : UInt64
  embed : Embed
  error : Option QueuedMessageError := none
  tries : Nat := 0
  processedAt : Int
deriving DecidableEq, Repr

namespace QueuedMessage

variable (P : Platform)

def noEmbed : Exception := .invalidArgument "message does not contain valid embed object"

/-- The embed branch of the constructor. -/
def readEmbed (message : Json) : Except Exception Embed :=
  if message.contains "embed" then do
    let embed ← message.subscript "embed"
    if embed.isObject then Embed.ofJson P embed else throw noEmbed
  else throw noEmbed

/-- The constructor. `id` has no initialiser, so an absent `"id"` leaves what the
storage held; the snowflakes start at 0. -/
def ofJson (now : Int) (storage : UInt64) (message : Json) : Except Exception QueuedMessage := do
  let id ← setInt64NotNull P message "id" storage
  let guildId ← setInt64NotNull P message "guild_id" 0
  let recipient ← setInt64NotNull P message "recipient" 0
  let embed ← readEmbed P message
  if id = 0 then throw (.invalidArgument "message has no id")
  else if guildId = 0 then throw (.invalidArgument "message has no guild_id")
  else if recipient = 0 then throw (.invalidArgument "message has no recipient")
  else return { id, guildId, recipient, embed, tries := 0, processedAt := now }

/-- The remote call a suspended `send_to_discord` waits for. -/
inductive Await where
  | memberLookup
  | directMessage
deriving DecidableEq, Repr

/-- How `send_to_discord` goes on from a suspension point. -/
inductive SendProgress where
  | returned (message : QueuedMessage)
  | suspended (message : QueuedMessage)

/-- `send_to_discord` resumed with the completion it waited for. -/
def sendToDiscord (now : Int) (awaiting : Await) (message : QueuedMessage)
    (result : HttpRequestCompletion) : SendProgress :=
  match awaiting with
  | .memberLookup =>
      let message := { message with processedAt := now }
      if P.isError result then
        .returned { message with error := some (.ofCallback P result) }
      else .suspended message
  | .directMessage =>
      if P.isError result then
        .returned { message with error := some (.ofCallback P result) }
      else .returned message

/-- What the panel is told about a message, and what identifies it there. -/
structure Outcome where
  error : Option QueuedMessageError
  processedAt : Int
  recipient : UInt64
  guildId : UInt64
deriving DecidableEq, Repr

def outcome (message : QueuedMessage) : Outcome where
  error := message.error
  processedAt := message.processedAt
  recipient := message.recipient
  guildId := message.guildId

/-- The message with its counter advanced by one. -/
def retry (message : QueuedMessage) : QueuedMessage :=
  { message with tries := message.tries + 1 }

@[simp] theorem retry_id (m : QueuedMessage) : m.retry.id = m.id := rfl

@[simp] theorem retry_tries (m : QueuedMessage) : m.retry.tries = m.tries + 1 := rfl

@[simp] theorem retry_outcome (m : QueuedMessage) : m.retry.outcome = m.outcome := rfl

/-- A freshly constructed message has had no try and no error, and a non-zero id. -/
theorem ofJson_fresh {now : Int} {storage : UInt64} {message : Json} {m : QueuedMessage}
    (h : ofJson P now storage message = .ok m) : m.tries = 0 ∧ m.error = none ∧ m.id ≠ 0 := by
  simp only [ofJson, bind, Except.bind] at h
  repeat' split at h
  all_goals first
    | (cases h; done)
    | (cases h; exact ⟨rfl, rfl, ‹_›⟩)

/-- Whatever it waited for, resuming leaves identity and tries of the message alone. -/
theorem sendToDiscord_kept {now : Int} {awaiting : Await} {message m : QueuedMessage}
    {result : HttpRequestCompletion}
    (h : sendToDiscord P now awaiting message result = .returned m ∨
      sendToDiscord P now awaiting message result = .suspended m) :
    m.id = message.id ∧ m.tries = message.tries := by
  cases awaiting with
  | memberLookup =>
    simp only [sendToDiscord] at h
    split at h
    · simp only [SendProgress.returned.injEq, reduceCtorEq, or_false] at h
      exact h ▸ ⟨rfl, rfl⟩
    · simp only [SendProgress.suspended.injEq, reduceCtorEq, false_or] at h
      exact h ▸ ⟨rfl, rfl⟩
  | directMessage =>
    simp only [sendToDiscord] at h
    split at h
    all_goals
      simp only [SendProgress.returned.injEq, reduceCtorEq, or_false] at h
      exact h ▸ ⟨rfl, rfl⟩

/-- The direct message is the last thing a send waits for. -/
theorem sendToDiscord_directMessage (now : Int) (message : QueuedMessage)
    (result : HttpRequestCompletion) :
    ∃ m, sendToDiscord P now .directMessage message result = .returned m := by
  unfold sendToDiscord
  cases P.isError result with
  | true => exact ⟨_, rfl⟩
  | false => exact ⟨message, rfl⟩

end QueuedMessage

/-! ### The cache -/

/-- `processed_message_cache`. The iteration order of `std::unordered_map` is
unspecified; the model's is by key, and no statement depends on it. -/
structure ProcessedMessageCache where
  cacheMap : Std.ExtTreeMap UInt64 QueuedMessage compare := ∅

namespace ProcessedMessageCache

variable (P : Platform)

/-- `store`: `emplace` does nothing on a key that is there. -/
def store (cache : ProcessedMessageCache) (message : QueuedMessage) : ProcessedMessageCache where
  cacheMap := cache.cacheMap.insertIfNew message.id message

/-- What a sweep leaves of an entry. -/
def sweep (message : QueuedMessage) : Option QueuedMessage :=
  let message := message.retry
  if message.tries ≥ 4 then none else some message

/-- `clear_garbage_and_increase_tries`. -/
def clearGarbageAndIncreaseTries (cache : ProcessedMessageCache) : ProcessedMessageCache where
  cacheMap := cache.cacheMap.filterMap fun _ message => sweep message

/-- The entries a sweep erases, with the tries they reached. -/
def garbage (cache : ProcessedMessageCache) : List QueuedMessage :=
  (cache.cacheMap.toList.map fun entry => entry.2.retry).filter fun message => message.tries ≥ 4

/-- The ids of the snapshot a report is built from. -/
def usedQueuedMessages (cache : ProcessedMessageCache) : List UInt64 :=
  cache.cacheMap.toList.map Prod.fst

/-- The cached messages of the snapshot. -/
def snapshot (cache : ProcessedMessageCache) : List QueuedMessage :=
  cache.cacheMap.toList.map Prod.snd

/-- `utilities::get_current_timestamp`. -/
def getCurrentTimestamp (now t : Int) : String :=
  P.formatTime (if t = 0 then now else t)

/-- One element of the report's `messages` array. -/
def reportEntry (now : Int) (message : QueuedMessage) : Except Exception Json := do
  let m ← Json.null.assign "id" (.numberUnsigned message.id)
  let m ← m.assign "processed_at" (.string (getCurrentTimestamp P now message.processedAt))
  let m ← m.assign "was_successfully_sent" (.boolean message.error.isNone)
  match message.error with
  | some error =>
      let err ← Json.null.assign "code" (.numberUnsigned error.code.toUInt64)
      let err ← err.assign "http_status" (.numberUnsigned error.status.toUInt64)
      m.assign "error" err
  | none => return m

/-- One round of the loop that fills the report: `j["messages"].push_back(m)`. -/
def pushEntry (now : Int) (j : Json) (message : QueuedMessage) : Except Exception Json := do
  let m ← reportEntry P now message
  let messages ← j.subscript "messages"
  j.assign "messages" (← messages.pushBack m)

/-- The body of `/processed-queued-messages`. -/
def reportBody (now : Int) (cache : ProcessedMessageCache) : Except Exception Json := do
  let j ← Json.null.assign "messages" (.array [])
  cache.snapshot.foldlM (pushEntry P now) j

/-- The API took a report: neither a status from 300 on (401 included) nor a transport error. -/
def accepted (response : HttpRequestCompletion) : Bool :=
  response.status < 300 && response.error == .success

/-- The completion callback of a report over the ids `used`. -/
def reported (cache : ProcessedMessageCache) (used : List UInt64)
    (response : HttpRequestCompletion) : ProcessedMessageCache :=
  if response.status = 401 then cache
  else if response.status ≥ 300 ∨ response.error ≠ .success then cache
  else
    { cacheMap := used.foldl
        (fun map id => if map.contains id then map.erase id else map) cache.cacheMap }

/-! ### What an operation leaves under a key -/

theorem getElem?_store (cache : ProcessedMessageCache) (message : QueuedMessage) (id : UInt64) :
    (cache.store message).cacheMap[id]? =
      if id = message.id ∧ cache.cacheMap[id]? = none then some message
      else cache.cacheMap[id]? := by
  simp only [store, Std.ExtTreeMap.getElem?_insertIfNew, Std.LawfulEqCmp.compare_eq_iff_eq]
  by_cases h : message.id = id
  · subst h
    simp
  · simp [h, Ne.symm h]

theorem getElem?_clearGarbageAndIncreaseTries (cache : ProcessedMessageCache) (id : UInt64) :
    cache.clearGarbageAndIncreaseTries.cacheMap[id]? = cache.cacheMap[id]?.bind sweep := by
  rw [clearGarbageAndIncreaseTries, Std.ExtTreeMap.getElem?_filterMap']

/-- A sweep erases the entries that have had three tries, and advances the others. -/
theorem sweep_eq_some {message m : QueuedMessage} :
    sweep message = some m ↔ message.tries ≤ 2 ∧ m = message.retry := by
  by_cases h : 4 ≤ message.tries + 1
  · have erased : sweep message = none := if_pos h
    rw [erased]
    exact ⟨(nomatch ·), fun h' => absurd h'.1 (by omega)⟩
  · have kept : sweep message = some message.retry := if_neg h
    rw [kept, Option.some.injEq]
    exact ⟨fun heq => ⟨by omega, heq.symm⟩, fun h' => h'.2.symm⟩

theorem swept_eq_some {cache : ProcessedMessageCache} {id : UInt64} {m : QueuedMessage} :
    cache.clearGarbageAndIncreaseTries.cacheMap[id]? = some m ↔
      ∃ message, cache.cacheMap[id]? = some message ∧ message.tries ≤ 2 ∧ m = message.retry := by
  simp only [getElem?_clearGarbageAndIncreaseTries, Option.bind_eq_some_iff, sweep_eq_some]

theorem mem_garbage {cache : ProcessedMessageCache} {m : QueuedMessage} :
    m ∈ cache.garbage ↔ ∃ (id : UInt64) (q : QueuedMessage),
      cache.cacheMap[id]? = some q ∧ m = q.retry ∧ 4 ≤ m.tries := by
  simp only [garbage, List.mem_filter, List.mem_map, decide_eq_true_eq]
  constructor
  · rintro ⟨⟨⟨id, q⟩, hq, rfl⟩, htries⟩
    exact ⟨id, q, Std.ExtTreeMap.mem_toList_iff_getElem?_eq_some.mp hq, rfl, htries⟩
  · rintro ⟨id, q, hq, rfl, htries⟩
    exact ⟨⟨(id, q), Std.ExtTreeMap.mem_toList_iff_getElem?_eq_some.mpr hq, rfl⟩, htries⟩

theorem mem_snapshot {cache : ProcessedMessageCache} {m : QueuedMessage} :
    m ∈ cache.snapshot ↔ ∃ id : UInt64, cache.cacheMap[id]? = some m := by
  simp only [snapshot, List.mem_map]
  constructor
  · rintro ⟨⟨id, m⟩, hm, rfl⟩
    exact ⟨id, Std.ExtTreeMap.mem_toList_iff_getElem?_eq_some.mp hm⟩
  · rintro ⟨id, hm⟩
    exact ⟨(id, m), Std.ExtTreeMap.mem_toList_iff_getElem?_eq_some.mpr hm, rfl⟩

theorem getElem?_eraseAll (used : List UInt64) (map : Std.ExtTreeMap UInt64 QueuedMessage compare)
    (id : UInt64) :
    (used.foldl (fun map id => if map.contains id then map.erase id else map) map)[id]? =
      if id ∈ used then none else map[id]? := by
  induction used generalizing map with
  | nil => simp
  | cons k used ih =>
    rw [List.foldl_cons, ih]
    have head : (if map.contains k then map.erase k else map)[id]? =
        if id = k then none else map[id]? := by
      by_cases hid : id = k
      · subst hid
        by_cases hk : map.contains id = true
        · simp [hk]
        · rw [if_neg hk, if_pos rfl]
          rw [Std.ExtTreeMap.contains_eq_isSome_getElem?] at hk
          simpa using hk
      · have ne : compare k id ≠ .eq := by
          rw [ne_eq, Std.LawfulEqCmp.compare_eq_iff_eq]
          exact Ne.symm hid
        rw [if_neg hid]
        split
        · rw [Std.ExtTreeMap.getElem?_erase, if_neg ne]
        · rfl
    rw [head]
    by_cases hid : id = k <;> simp [hid]

theorem accepted_iff {response : HttpRequestCompletion} :
    accepted response = true ↔ response.status < 300 ∧ response.error = .success := by
  simp [accepted]

theorem reported_of_not_accepted {response : HttpRequestCompletion}
    (h : accepted response = false) (cache : ProcessedMessageCache) (used : List UInt64) :
    cache.reported used response = cache := by
  unfold reported
  split
  · rfl
  · rename_i h401
    rw [if_pos]
    by_contra hn
    rw [not_or, not_not] at hn
    have : accepted response = true := accepted_iff.mpr ⟨UInt16.not_le.mp hn.1, hn.2⟩
    rw [h] at this
    cases this

theorem getElem?_reported {response : HttpRequestCompletion} (h : accepted response = true)
    (cache : ProcessedMessageCache) (used : List UInt64) (id : UInt64) :
    (cache.reported used response).cacheMap[id]? =
      if id ∈ used then none else cache.cacheMap[id]? := by
  obtain ⟨hstatus, herror⟩ := accepted_iff.mp h
  have h401 : response.status ≠ 401 := by
    rintro heq
    rw [heq] at hstatus
    exact absurd hstatus (by decide)
  rw [reported, if_neg h401, if_neg, getElem?_eraseAll]
  rw [not_or, not_not]
  exact ⟨UInt16.not_le.mpr hstatus, herror⟩

/-! ### The report body -/

/-- The element a cached message is reported by. -/
def entryJson (now : Int) (message : QueuedMessage) : Json :=
  .object <|
    (match message.error with
      | some error => [("error", .object
          [("code", .numberUnsigned error.code.toUInt64),
           ("http_status", .numberUnsigned error.status.toUInt64)])]
      | none => []) ++
    [("id", .numberUnsigned message.id),
     ("processed_at", .string (getCurrentTimestamp P now message.processedAt)),
     ("was_successfully_sent", .boolean message.error.isNone)]

theorem reportEntry_eq (now : Int) (message : QueuedMessage) :
    reportEntry P now message = .ok (entryJson P now message) := by
  unfold reportEntry entryJson
  cases message.error <;> rfl

theorem foldlM_pushEntry (now : Int) (messages : List QueuedMessage) (done : List Json) :
    messages.foldlM (pushEntry P now) (.object [("messages", .array done)]) =
      .ok (.object [("messages", .array (done ++ messages.map (entryJson P now)))]) := by
  induction messages generalizing done with
  | nil => simp; rfl
  | cons m messages ih =>
    have push : pushEntry P now (.object [("messages", .array done)]) m =
        .ok (.object [("messages", .array (done ++ [entryJson P now m]))]) := by
      simp only [pushEntry, reportEntry_eq, bind, Except.bind]
      rfl
    rw [List.foldlM_cons, push]
    exact (ih _).trans (by simp)

/-- Building the report throws nothing: its body lists the snapshot. -/
theorem reportBody_eq (now : Int) (cache : ProcessedMessageCache) :
    reportBody P now cache =
      .ok (.object [("messages", .array (cache.snapshot.map (entryJson P now)))]) :=
  foldlM_pushEntry P now cache.snapshot []

end ProcessedMessageCache
