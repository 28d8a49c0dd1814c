import CordactylBot.Messages.Calls
import CordactylBot.Messages.Report
import Mathlib.Data.Stream.Init

/-!
One batch, from its delivery to its report.

A call no other call overlaps is a loop again: `handle` runs it on a stream of
completions and says what became of each element. When each answer the call takes can be
read, the world it leaves behind depends on that only; at the first that cannot be read it
hangs (`batch_end_to_end`).

* `nextMessage_run` — the suspended and resumed call carries out `handle`.
* `told_handle` — what `handle` makes of an element, in terms of its completions.
* `handle_skip` — what a rejected element changes for the others: nothing.
-/

open Dpp
open QueuedMessage (Await)

namespace Messages

variable (P : Platform)

/-- The completion of a remote call, and what the resumed loop reads: the clock and the
memory of the ids. A direct message may have to wait for its channel first. -/
structure Completion where
  result : Answer
  now : Int
  storage : Nat → UInt64
  channel : Option HttpRequestCompletion := none

/-- The creation of the channel, if there is one, and the completion. -/
def Completion.labels (call : Nat) (awaiting : Await) (c : Completion) : List Label :=
  (match awaiting with
    | .memberLookup => []
    | .directMessage => c.channel.toList.map (.created call)) ++
  [.complete call c.result c.now c.storage]

/-- Each answer can be read. -/
def Completion.reads (awaiting : Await) (c : Completion) : Bool :=
  (match awaiting with
    | .memberLookup => true
    | .directMessage => c.channel.all fun rv => (Channel.ofJson (P.postRest rv).1).isSome) &&
  awaiting.reads P c.result

/-- What became of an element: the constructor threw, or its message was sent, with or
without a direct message. -/
inductive Fate where
  | rejected (what : String)
  | sent (message : QueuedMessage) (issued : Bool)
deriving DecidableEq

/-- The loop of `process_new_messages`, without its suspension points. Each send takes
one completion, or two if the direct message is issued, and the loop goes on with the
clock of the last. -/
def handle (now : Int) (storage : Nat → UInt64) :
    List Json → Stream' Completion → List Fate
  | [], _ => []
  | message :: rest, cs =>
      match QueuedMessage.ofJson P now (storage rest.length) message with
      | .error e => .rejected e.what :: handle now storage rest cs
      | .ok qm =>
          let (sent, issued) :=
            qm.sendWith P (cs.get 0).now (cs.get 1).now (cs.get 0).result (cs.get 1).result
          let last := cs.get issued.toNat
          .sent sent issued :: handle last.now last.storage rest (cs.drop (issued.toNat + 1))

/-- The messages that were sent, in array order. -/
def sentMessages : List Fate → List QueuedMessage
  | [] => []
  | .rejected _ :: rest => sentMessages rest
  | .sent m _ :: rest => m :: sentMessages rest

/-- The calls to Discord: one lookup for each valid element, followed by its direct
message if that was issued. -/
def discordCalls (call : Nat) : List Fate → List Event
  | [] => []
  | .rejected _ :: rest => discordCalls call rest
  | .sent m issued :: rest =>
      .memberLookup call rest.length m.id ::
        ((if issued then [.directMessage call rest.length m.id] else []) ++
          discordCalls call rest)

/-- The event is a request to Discord or to the API. -/
def isRequest : Event → Bool
  | .memberLookup .. => true
  | .directMessage .. => true
  | .reported .. => true
  | _ => false

/-- The requests among the events of a log, oldest first. -/
def requests (events : List Event) : List Event :=
  (events.filter isRequest).reverse

/-- What the send of an element takes from the stream: the completion of its lookup, and that
of its direct message if it was issued. -/
def sendLabels (call : Nat) (issued : Bool) (cs : Stream' Completion) : List Label :=
  (cs.get 0).labels call .memberLookup ++
    if issued then (cs.get 1).labels call .directMessage else []

/-- What a batch takes from the stream: one completion for each call to Discord. -/
def consumed (call : Nat) : List Fate → Stream' Completion → List Label
  | [], _ => []
  | .rejected _ :: rest, cs => consumed call rest cs
  | .sent _ issued :: rest, cs =>
      sendLabels call issued cs ++ consumed call rest (cs.drop (issued.toNat + 1))

/-- The answers the send of an element takes can be read. -/
def sendReads (issued : Bool) (cs : Stream' Completion) : Bool :=
  (cs.get 0).reads P .memberLookup && (!issued || (cs.get 1).reads P .directMessage)

/-- Each answer a batch takes can be read: that of the lookup of each element the constructor
accepts and, when that lookup is no error, those of its direct message. -/
def answersRead (now : Int) (storage : Nat → UInt64) : List Json → Stream' Completion → Bool
  | [], _ => true
  | message :: rest, cs =>
      match QueuedMessage.ofJson P now (storage rest.length) message with
      | .error _ => answersRead now storage rest cs
      | .ok _ =>
          let issued := !P.isError (P.httpInfo (cs.get 0).result)
          let last := cs.get issued.toNat
          sendReads P issued cs &&
            answersRead last.now last.storage rest (cs.drop (issued.toNat + 1))

/-- What becomes of the elements, told by the completions. An element the constructor throws
on is rejected. A message whose lookup is an error carries that error, and no direct message is
issued; otherwise one is issued, and the message carries an error if that is one. Either way it
was processed when the lookup completed. -/
def Told (now : Int) (storage : Nat → UInt64) :
    List Json → Stream' Completion → List Fate → Prop
  | [], _, fates => fates = []
  | message :: rest, cs, fates =>
      (∃ e tail, QueuedMessage.ofJson P now (storage rest.length) message = .error e ∧
        fates = .rejected e.what :: tail ∧ Told now storage rest cs tail) ∨
      ∃ qm issued error tail, QueuedMessage.ofJson P now (storage rest.length) message = .ok qm ∧
        fates = .sent { qm with processedAt := (cs.get 0).now, error } issued :: tail ∧
        (issued = true ↔ P.isError (P.httpInfo (cs.get 0).result) = false) ∧
        (issued = false → error =
          some (.ofCallback P (P.httpInfo (cs.get 0).result)) ∧
          Told (cs.get 0).now (cs.get 0).storage rest (cs.drop 1) tail) ∧
        (issued = true → error = (if P.isError (P.httpInfo (cs.get 1).result) then
            some (.ofCallback P (P.httpInfo (cs.get 1).result)) else none) ∧
          Told (cs.get 1).now (cs.get 1).storage rest (cs.drop 2) tail)

/-- Every message is cached under its own id. -/
def Keyed (cache : ProcessedMessageCache) : Prop :=
  ∀ (id : UInt64) m, cache.cacheMap[id]? = some m → m.id = id

/-- The entries of a report about the batch that found the cache as `cache`. -/
structure Entries (cache : ProcessedMessageCache) (handled : List Fate)
    (entries : List QueuedMessage) : Prop where
  nodup : (entries.map (·.id)).Nodup
  ids : ∀ id, id ∈ entries.map (·.id) ↔
    (∃ m, cache.cacheMap[id]? = some m ∧ m.tries ≤ 2) ∨
    (cache.cacheMap[id]? = none ∧ id ∈ (sentMessages handled).map (·.id))
  kept : ∀ e ∈ entries, ∀ m, cache.cacheMap[e.id]? = some m → e = m.retry
  fresh : ∀ e ∈ entries, cache.cacheMap[e.id]? = none →
    ∀ m, (sentMessages handled).filter (·.id = e.id) = [m] → e = m.retry

/-- What `call` did between `w` and `w'`, in which it logged `new`: nothing if there are
no elements, else the calls to Discord and one report. The cache afterwards is what
the report lists. -/
structure Batch (w : World) (elements : List Json) (now : Int) (storage : Nat → UInt64)
    (cs : Stream' Completion) (handled : List Fate) (w' : World) (new : List Event) : Prop where
  told : Told P now storage elements cs handled
  returned : .returned w.nextCall ∈ new
  contained : ∀ e, .escaped w.nextCall e ∉ new
  unreported : elements = [] → requests new = [] ∧ w'.cache = w.cache
  reported : elements ≠ [] → ∃ entries,
    requests new =
      discordCalls w.nextCall handled ++ [.reported w.nextCall w.nextReport entries] ∧
    Entries w.cache handled entries ∧
    (∃ now, w'.reports[w.nextReport]? = some
      { call := w.nextCall, used := entries.map (·.id), entries
        body := .object [("messages",
          .array (entries.map (ProcessedMessageCache.entryJson P now)))] }) ∧
    ∀ (id : UInt64) m, w'.cache.cacheMap[id]? = some m ↔ m ∈ entries ∧ m.id = id

/-- Since `w`, `call` has neither returned nor posted a report, and nothing resumes it. -/
structure Hung (call : Nat) (w w' : World) : Prop where
  lost : call ∈ w'.lost
  log : ∃ new, w'.log = new ++ w.log ∧ .returned call ∉ new ∧
    ∀ n entries, .reported call n entries ∉ new

/-- The memory of the ids when the element before the last `n` is left out. -/
def skip (n : Nat) (storage : Nat → UInt64) (position : Nat) : UInt64 :=
  if position < n then storage position else storage (position + 1)

def Completion.skip (n : Nat) (c : Completion) : Completion :=
  { c with storage := Messages.skip n c.storage }

variable {P}

/-! ### What the loop does with an element -/

theorem handle_error {now : Int} {storage : Nat → UInt64} {message : Json} {rest : List Json}
    {e : Exception} (h : QueuedMessage.ofJson P now (storage rest.length) message = .error e)
    (cs : Stream' Completion) :
    handle P now storage (message :: rest) cs = .rejected e.what :: handle P now storage rest cs := by
  rw [handle, h]

/-- The send of a message on the completions of the stream. -/
def sendOn (P : Platform) (qm : QueuedMessage) (cs : Stream' Completion) : QueuedMessage × Bool :=
  qm.sendWith P (cs.get 0).now (cs.get 1).now (cs.get 0).result (cs.get 1).result

theorem handle_ok {now : Int} {storage : Nat → UInt64} {message : Json} {rest : List Json}
    {qm : QueuedMessage} (h : QueuedMessage.ofJson P now (storage rest.length) message = .ok qm)
    (cs : Stream' Completion) :
    handle P now storage (message :: rest) cs =
      .sent (sendOn P qm cs).1 (sendOn P qm cs).2 ::
        handle P (cs.get (sendOn P qm cs).2.toNat).now (cs.get (sendOn P qm cs).2.toNat).storage
          rest (cs.drop ((sendOn P qm cs).2.toNat + 1)) := by
  rw [handle, h]
  rfl

theorem sendOn_issued (qm : QueuedMessage) (cs : Stream' Completion) :
    (sendOn P qm cs).2 = !P.isError (P.httpInfo (cs.get 0).result) := by
  unfold sendOn QueuedMessage.sendWith QueuedMessage.sendToDiscord
  cases P.isError (P.httpInfo (cs.get 0).result) with
  | true => rfl
  | false => cases P.isError (P.httpInfo (cs.get 1).result) <;> rfl

theorem answersRead_error {now : Int} {storage : Nat → UInt64} {message : Json}
    {rest : List Json} {e : Exception}
    (h : QueuedMessage.ofJson P now (storage rest.length) message = .error e)
    (cs : Stream' Completion) :
    answersRead P now storage (message :: rest) cs = answersRead P now storage rest cs := by
  rw [answersRead, h]

theorem answersRead_ok {now : Int} {storage : Nat → UInt64} {message : Json} {rest : List Json}
    {qm : QueuedMessage} (h : QueuedMessage.ofJson P now (storage rest.length) message = .ok qm)
    (cs : Stream' Completion) :
    answersRead P now storage (message :: rest) cs =
      (sendReads P (sendOn P qm cs).2 cs &&
        answersRead P (cs.get (sendOn P qm cs).2.toNat).now
          (cs.get (sendOn P qm cs).2.toNat).storage rest
          (cs.drop ((sendOn P qm cs).2.toNat + 1))) := by
  rw [answersRead, h, sendOn_issued]

/-- A send notes the time of its lookup and the error, if any. -/
theorem sendOn_message (qm : QueuedMessage) (cs : Stream' Completion) :
    { qm with processedAt := (cs.get 0).now, error := (sendOn P qm cs).1.error } =
      (sendOn P qm cs).1 := by
  unfold sendOn QueuedMessage.sendWith QueuedMessage.sendToDiscord
  cases P.isError (P.httpInfo (cs.get 0).result) with
  | true => rfl
  | false => cases P.isError (P.httpInfo (cs.get 1).result) <;> rfl

/-- One element: rejected and skipped, or sent. -/
theorem handle_cases (now : Int) (storage : Nat → UInt64) (message : Json) (rest : List Json)
    (cs : Stream' Completion) :
    (∃ e, QueuedMessage.ofJson P now (storage rest.length) message = .error e ∧
      handle P now storage (message :: rest) cs =
        .rejected e.what :: handle P now storage rest cs) ∨
    (∃ qm, QueuedMessage.ofJson P now (storage rest.length) message = .ok qm ∧
      handle P now storage (message :: rest) cs =
        .sent (sendOn P qm cs).1 (sendOn P qm cs).2 ::
          handle P (cs.get (sendOn P qm cs).2.toNat).now (cs.get (sendOn P qm cs).2.toNat).storage
            rest (cs.drop ((sendOn P qm cs).2.toNat + 1))) := by
  cases h : QueuedMessage.ofJson P now (storage rest.length) message with
  | error e => exact .inl ⟨e, rfl, handle_error h cs⟩
  | ok qm => exact .inr ⟨qm, rfl, handle_ok h cs⟩

/-- **What `handle` says, in terms of the completions.** -/
theorem told_handle (elements : List Json) : ∀ (now : Int) (storage : Nat → UInt64)
    (cs : Stream' Completion), Told P now storage elements cs (handle P now storage elements cs) := by
  induction elements with
  | nil => intros; rfl
  | cons message rest ih =>
    intro now storage cs
    obtain ⟨e, he, heq⟩ | ⟨qm, hqm, heq⟩ := handle_cases (P := P) now storage message rest cs
    · exact .inl ⟨e, _, he, heq, ih now storage cs⟩
    · have fresh := (QueuedMessage.ofJson_fresh P hqm).2.1
      refine .inr ⟨qm, (sendOn P qm cs).2, (sendOn P qm cs).1.error,
        handle P (cs.get (sendOn P qm cs).2.toNat).now (cs.get (sendOn P qm cs).2.toNat).storage
          rest (cs.drop ((sendOn P qm cs).2.toNat + 1)), hqm, ?_, ?_, ?_, ?_⟩
      · rw [heq, sendOn_message]
      · rw [sendOn_issued, Bool.not_eq_true']
      · intro hissued
        rw [hissued]
        refine ⟨?_, ih _ _ _⟩
        rw [sendOn_issued, Bool.not_eq_false'] at hissued
        simp [sendOn, QueuedMessage.sendWith, QueuedMessage.sendToDiscord, hissued]
      · intro hissued
        rw [hissued]
        refine ⟨?_, ih _ _ _⟩
        rw [sendOn_issued, Bool.not_eq_true'] at hissued
        cases hdirect : P.isError (P.httpInfo (cs.get 1).result) <;>
          simp [sendOn, QueuedMessage.sendWith, QueuedMessage.sendToDiscord, hissued, hdirect, fresh]

/-- A send leaves identity and tries of its message alone. -/
theorem sendWith_kept (t₁ t₂ : Int) (qm : QueuedMessage) (lookup direct : HttpRequestCompletion) :
    (qm.sendWith P t₁ t₂ lookup direct).1.id = qm.id ∧
      (qm.sendWith P t₁ t₂ lookup direct).1.tries = qm.tries := by
  unfold QueuedMessage.sendWith
  split
  · rename_i m hm
    exact QueuedMessage.sendToDiscord_kept P (.inl hm)
  · rename_i m hm
    have looked := QueuedMessage.sendToDiscord_kept P (.inr hm)
    split
    · rename_i m' hm'
      have direct := QueuedMessage.sendToDiscord_kept P (.inl hm')
      exact ⟨direct.1.trans looked.1, direct.2.trans looked.2⟩
    · rename_i m' hm'
      have direct := QueuedMessage.sendToDiscord_kept P (.inr hm')
      exact ⟨direct.1.trans looked.1, direct.2.trans looked.2⟩

/-- A message this batch sent has had no try. -/
theorem tries_of_sent {elements : List Json} : ∀ {now : Int} {storage : Nat → UInt64}
    {cs : Stream' Completion} {m : QueuedMessage},
    m ∈ sentMessages (handle P now storage elements cs) → m.tries = 0 := by
  induction elements with
  | nil => intro _ _ _ _ hm; cases hm
  | cons message rest ih =>
    intro now storage cs m hm
    obtain ⟨e, -, heq⟩ | ⟨qm, hqm, heq⟩ := handle_cases (P := P) now storage message rest cs
    · rw [heq] at hm
      exact ih hm
    · rw [heq] at hm
      rcases List.mem_cons.mp hm with rfl | hm
      · exact (sendWith_kept _ _ qm _ _).2.trans (QueuedMessage.ofJson_fresh P hqm).1
      · exact ih hm

theorem length_handle {elements : List Json} : ∀ (now : Int) (storage : Nat → UInt64)
    (cs : Stream' Completion), (handle P now storage elements cs).length = elements.length := by
  induction elements with
  | nil => intros; rfl
  | cons message rest ih =>
    intro now storage cs
    obtain ⟨e, -, heq⟩ | ⟨qm, -, heq⟩ := handle_cases (P := P) now storage message rest cs <;>
    · rw [heq, List.length_cons, List.length_cons, ih]

/-! ### The cache after a batch -/

theorem getElem?_storeAll (messages : List QueuedMessage) (cache : ProcessedMessageCache)
    (id : UInt64) :
    (messages.foldl ProcessedMessageCache.store cache).cacheMap[id]? =
      cache.cacheMap[id]?.or (messages.find? (·.id = id)) := by
  induction messages generalizing cache with
  | nil => simp
  | cons m messages ih =>
    rw [List.foldl_cons, ih, ProcessedMessageCache.getElem?_store]
    by_cases hid : m.id = id
    · cases hc : cache.cacheMap[id]? <;> simp [hid]
    · rw [if_neg fun h => hid h.1.symm, List.find?_cons_of_neg (by simpa using hid)]

/-- The cache a batch leaves: the messages stored over `cache`, then the sweep. -/
def cacheAfter (cache : ProcessedMessageCache) (handled : List Fate) : ProcessedMessageCache :=
  ((sentMessages handled).foldl ProcessedMessageCache.store cache).clearGarbageAndIncreaseTries

theorem mem_cacheAfter {cache : ProcessedMessageCache} {handled : List Fate} {id : UInt64}
    {e : QueuedMessage} :
    (cacheAfter cache handled).cacheMap[id]? = some e ↔
      ∃ m, m.tries ≤ 2 ∧ e = m.retry ∧
        (cache.cacheMap[id]? = some m ∨
          cache.cacheMap[id]? = none ∧ (sentMessages handled).find? (·.id = id) = some m) := by
  simp only [cacheAfter, ProcessedMessageCache.swept_eq_some, getElem?_storeAll,
    Option.or_eq_some_iff]
  constructor
  · rintro ⟨m, hm, htries, rfl⟩
    exact ⟨m, htries, rfl, hm⟩
  · rintro ⟨m, htries, rfl, hm⟩
    exact ⟨m, hm, htries, rfl⟩

theorem keyed_cacheAfter {cache : ProcessedMessageCache} (keyed : Keyed cache)
    (handled : List Fate) : Keyed (cacheAfter cache handled) := by
  intro id e he
  obtain ⟨m, -, rfl, hcached | ⟨-, hsent⟩⟩ := mem_cacheAfter.mp he
  · exact keyed id m hcached
  · simpa using List.find?_some hsent

theorem ids_snapshot {cache : ProcessedMessageCache} (keyed : Keyed cache) :
    cache.snapshot.map (·.id) = cache.usedQueuedMessages := by
  rw [ProcessedMessageCache.snapshot, List.map_map, ProcessedMessageCache.usedQueuedMessages]
  refine List.map_congr_left fun entry hentry => ?_
  exact keyed entry.1 entry.2 (Std.ExtTreeMap.mem_toList_iff_getElem?_eq_some.mp hentry)

theorem nodup_usedQueuedMessages (cache : ProcessedMessageCache) :
    cache.usedQueuedMessages.Nodup := by
  rw [ProcessedMessageCache.usedQueuedMessages, Std.ExtTreeMap.map_fst_toList_eq_keys]
  exact Std.ExtTreeMap.nodup_keys

theorem mem_snapshot_iff {cache : ProcessedMessageCache} (keyed : Keyed cache) {id : UInt64}
    {m : QueuedMessage} : cache.cacheMap[id]? = some m ↔ m ∈ cache.snapshot ∧ m.id = id := by
  rw [ProcessedMessageCache.mem_snapshot]
  constructor
  · exact fun h => ⟨⟨id, h⟩, keyed id m h⟩
  · rintro ⟨⟨id', h⟩, rfl⟩
    rwa [keyed id' m h]

theorem entries_cacheAfter {cache : ProcessedMessageCache} (keyed : Keyed cache)
    {handled : List Fate} (untried : ∀ m ∈ sentMessages handled, m.tries = 0) :
    Entries cache handled (cacheAfter cache handled).snapshot := by
  have keyed' := keyed_cacheAfter keyed handled
  have mem {e : QueuedMessage} : e ∈ (cacheAfter cache handled).snapshot ↔
      (cacheAfter cache handled).cacheMap[e.id]? = some e := by
    rw [mem_snapshot_iff keyed', and_iff_left rfl]
  constructor
  · rw [ids_snapshot keyed']
    exact nodup_usedQueuedMessages _
  · intro id
    simp only [List.mem_map, mem]
    constructor
    · rintro ⟨e, he, rfl⟩
      obtain ⟨m, htries, -, hcached | ⟨hnone, hsent⟩⟩ := mem_cacheAfter.mp he
      · exact .inl ⟨m, hcached, htries⟩
      · exact .inr ⟨hnone, m, List.mem_of_find?_eq_some hsent, by simpa using List.find?_some hsent⟩
    · rintro (⟨m, hcached, htries⟩ | ⟨hnone, m, hsent, rfl⟩)
      · have hid := keyed id m hcached
        subst hid
        exact ⟨m.retry, mem_cacheAfter.mpr ⟨m, htries, rfl, .inl hcached⟩, rfl⟩
      · obtain ⟨q, hq⟩ : ∃ q, (sentMessages handled).find? (·.id = m.id) = some q := by
          rw [← Option.isSome_iff_exists, List.find?_isSome]
          exact ⟨m, hsent, by simp⟩
        have hid : q.id = m.id := by simpa using List.find?_some hq
        refine ⟨q.retry, mem_cacheAfter.mpr ⟨q, ?_, rfl, .inr ?_⟩, hid⟩
        · rw [untried q (List.mem_of_find?_eq_some hq)]
          exact Nat.zero_le 2
        · rw [QueuedMessage.retry_id, hid]
          exact ⟨hnone, hq⟩
  · intro e he m hm
    obtain ⟨q, -, heq, hcached | ⟨hnone, -⟩⟩ := mem_cacheAfter.mp (mem.mp he)
    · rw [hm, Option.some.injEq] at hcached
      rw [heq, hcached]
    · rw [hnone] at hm
      cases hm
  · intro e he hnone m hsingle
    obtain ⟨q, -, heq, hcached | ⟨-, hsent⟩⟩ := mem_cacheAfter.mp (mem.mp he)
    · rw [hnone] at hcached
      cases hcached
    · rw [← List.head?_filter, hsingle, List.head?_cons, Option.some.injEq] at hsent
      rw [heq, hsent]

/-! ### The suspended and resumed call -/

theorem requests_append (new old : List Event) :
    requests (new ++ old) = requests old ++ requests new := by
  rw [requests, List.filter_append, List.reverse_append]
  rfl

theorem requests_eq_nil {events : List Event} (h : ∀ e ∈ events, isRequest e = false) :
    requests events = [] := by
  rw [requests, List.filter_eq_nil_iff.mpr fun e he => Bool.not_eq_true _ ▸ h e he]
  rfl

/-- Between `w` and `v`, `call` issued the requests and did not end. -/
structure Issued (call : Nat) (es : List Event) (w v : World) : Prop where
  lost : v.lost = w.lost
  nextReport : v.nextReport = w.nextReport
  log : ∃ new, v.log = new ++ w.log ∧ requests new = es ∧ (∀ e, .escaped call e ∉ new) ∧
    .returned call ∉ new

/-- Between `w` and `w'`, `call` handled the elements it had left and returned. -/
structure Ran (P : Platform) (call : Nat) (handled : List Fate) (w w' : World) : Prop where
  cache : w'.cache = cacheAfter w.cache handled
  report : ∃ now, w'.reports[w.nextReport]? = some
    { call, used := w'.cache.usedQueuedMessages, entries := w'.cache.snapshot
      body := .object [("messages",
        .array (w'.cache.snapshot.map (ProcessedMessageCache.entryJson P now)))] }
  log : ∃ new, w'.log = new ++ w.log ∧
    requests new =
      discordCalls call handled ++ [.reported call w.nextReport w'.cache.snapshot] ∧
    .returned call ∈ new ∧ ∀ e, .escaped call e ∉ new

theorem Issued.trans {call : Nat} {es fs : List Event} {u v w : World}
    (first : Issued call es u v) (second : Issued call fs v w) : Issued call (es ++ fs) u w := by
  obtain ⟨hlost, hnext, a, hlog, hreq, hesc, hret⟩ := first
  obtain ⟨hlost', hnext', b, hlog', hreq', hesc', hret'⟩ := second
  refine ⟨hlost'.trans hlost, hnext'.trans hnext, b ++ a, ?_, ?_, ?_, ?_⟩
  · rw [hlog', hlog, List.append_assoc]
  · rw [requests_append, hreq, hreq']
  · intro e he
    exact (List.mem_append.mp he).elim (hesc' e) (hesc e)
  · intro he
    exact (List.mem_append.mp he).elim hret' hret

/-- A request that was issued is one of the requests. -/
theorem mem_requests {events : List Event} {e : Event} (h : e ∈ events) (he : isRequest e = true) :
    e ∈ requests events :=
  List.mem_reverse.mpr (List.mem_filter.mpr ⟨h, he⟩)

/-- What the call did before it was lost. -/
theorem Hung.after {call : Nat} {es : List Event} {u v w : World} (issued : Issued call es u v)
    (unreported : ∀ n entries, .reported call n entries ∉ es) (hung : Hung call v w) :
    Hung call u w := by
  obtain ⟨-, -, a, hlog, hreq, -, hret⟩ := issued
  obtain ⟨hlost, b, hlog', hret', hrep⟩ := hung
  refine ⟨hlost, b ++ a, ?_, ?_, ?_⟩
  · rw [hlog', hlog, List.append_assoc]
  · intro he
    exact (List.mem_append.mp he).elim hret' hret
  · intro n entries he
    rcases List.mem_append.mp he with he | he
    · exact hrep n entries he
    · exact unreported n entries (hreq ▸ mem_requests he rfl)

/-- What the call did before it went on with the elements after `h`. -/
theorem Ran.after {call : Nat} {h : Fate} {handled : List Fate} {es : List Event}
    {u v w : World} (issued : Issued call es u v)
    (hes : es ++ discordCalls call handled = discordCalls call (h :: handled))
    (hcache : cacheAfter v.cache handled = cacheAfter u.cache (h :: handled))
    (ran : Ran P call handled v w) : Ran P call (h :: handled) u w := by
  obtain ⟨-, hnext, a, hlog, hreq, hesc, -⟩ := issued
  obtain ⟨hc, ⟨now, hreport⟩, b, hlog', hreq', hret, hesc'⟩ := ran
  refine ⟨hc.trans hcache, ⟨now, hnext ▸ hreport⟩, b ++ a, ?_, ?_, ?_, ?_⟩
  · rw [hlog', hlog, List.append_assoc]
  · rw [requests_append, hreq, hreq', hnext, ← List.append_assoc, hes]
  · exact List.mem_append_left _ hret
  · intro e he
    exact (List.mem_append.mp he).elim (hesc' e) (hesc e)

theorem issued_rejected (call position : Nat) (what : String) (w : World) :
    Issued call [] w (w.emit (.rejected call position what)) :=
  ⟨rfl, rfl, [.rejected call position what], rfl, rfl, by simp, by simp⟩

theorem issued_awaitMember (call : Nat) (m : QueuedMessage) (rest : List Json) (w : World) :
    Issued call [.memberLookup call rest.length m.id] w (w.awaitMember call m rest) :=
  ⟨rfl, rfl, [.memberLookup call rest.length m.id], rfl, rfl, by simp, by simp⟩

theorem issued_awaitDirectMessage (call : Nat) (m : QueuedMessage) (rest : List Json) (w : World) :
    Issued call [.directMessage call rest.length m.id] w (w.awaitDirectMessage call m rest) :=
  ⟨rfl, rfl, [.directMessage call rest.length m.id], rfl, rfl, by simp, by simp⟩

theorem issued_sent (call position : Nat) (m : QueuedMessage) (w : World) :
    Issued call [] w ((w.sent call position m).store m) := by
  obtain ⟨new, hlog, kinds⟩ := sent_log w call position m
  refine ⟨rfl, rfl, new, hlog, ?_, ?_, ?_⟩
  · apply requests_eq_nil
    intro e he
    rcases kinds e he with rfl | rfl <;> rfl
  · intro e he
    rcases kinds _ he with h | h <;> cases h
  · intro he
    rcases kinds _ he with h | h <;> cases h

/-- The end of a batch posts its report and returns. -/
theorem ran_finishBatch (now : Int) (call : Nat) (w : World) :
    Ran P call [] w (w.finishBatch P now call) := by
  rw [finishBatch_eq]
  refine ⟨rfl, ⟨now, Std.ExtTreeMap.getElem?_insert_self⟩, finishEvents w call, ?_, ?_, ?_, ?_⟩
  · exact finish_log w call _
  · have swept : requests (w.cache.garbage.map .discarded) = [] := by
      apply requests_eq_nil
      intro e he
      obtain ⟨m, -, rfl⟩ := List.mem_map.mp he
      rfl
    have split : finishEvents w call =
        [.returned call, .reported call w.nextReport w.sweep.cache.snapshot] ++
          w.cache.garbage.map .discarded := rfl
    rw [split, requests_append, swept]
    rfl
  · exact List.mem_cons_self
  · intro e he
    rcases mem_finishEvents he with h | h | ⟨m, -, h⟩ <;> cases h

theorem run_single {w w' : World} {l : Label} (h : step P w l = some w') :
    (system P).run w [l] = some w' :=
  (Transition.System.run_cons _).mpr ⟨w', h, rfl⟩

theorem step_completion {w : World} {call : Nat} {frame : Frame} (c : Completion)
    (hw : w.waiting call = some frame) :
    step P w (.complete call c.result c.now c.storage) =
      some (if frame.awaiting.reads P c.result then
          w.resume P c.now c.storage call frame c.result
        else w.lose call) := by
  simp only [step, hw, Option.map_some]

theorem step_creation {w : World} {call : Nat} {frame : Frame} (rv : HttpRequestCompletion)
    (hw : w.waiting call = some frame) (hawait : frame.awaiting = .directMessage) :
    step P w (.created call rv) =
      some (if (Channel.ofJson (P.postRest rv).1).isSome then w else w.lose call) := by
  simp only [step, hw, hawait, Option.bind_some]
  split <;> rfl

/-- A call whose answers can be read is taken on. -/
theorem resume_run {w : World} {call : Nat} {frame : Frame} {c : Completion}
    (hw : w.waiting call = some frame) (hread : c.reads P frame.awaiting = true) :
    (system P).run w (c.labels call frame.awaiting) =
      some (w.resume P c.now c.storage call frame c.result) := by
  have complete := step_completion (P := P) c hw
  cases hawait : frame.awaiting with
  | memberLookup =>
    simp only [Completion.reads, hawait, Bool.true_and] at hread
    rw [hawait, if_pos hread] at complete
    exact run_single complete
  | directMessage =>
    simp only [Completion.reads, hawait, Bool.and_eq_true] at hread
    rw [hawait, if_pos hread.2] at complete
    cases hchannel : c.channel with
    | none =>
      simp only [Completion.labels, hchannel, Option.toList_none, List.map_nil, List.nil_append]
      exact run_single complete
    | some rv =>
      rw [hchannel, Option.all_some] at hread
      have create := step_creation (P := P) rv hw hawait
      rw [if_pos hread.1] at create
      simp only [Completion.labels, hchannel, Option.toList_some, List.map_cons, List.map_nil]
      exact (Transition.System.run_cons _).mpr ⟨w, create, run_single complete⟩

/-- A call is lost at the first answer that cannot be read. -/
theorem lose_run {w : World} {call : Nat} {frame : Frame} {c : Completion}
    (hw : w.waiting call = some frame) (hread : c.reads P frame.awaiting = false) :
    ∃ taken, taken <+: c.labels call frame.awaiting ∧
      (system P).run w taken = some (w.lose call) := by
  have complete := step_completion (P := P) c hw
  cases hawait : frame.awaiting with
  | memberLookup =>
    simp only [Completion.reads, hawait, Bool.true_and] at hread
    rw [hawait, hread, if_neg Bool.false_ne_true] at complete
    exact ⟨_, List.prefix_rfl, run_single complete⟩
  | directMessage =>
    simp only [Completion.reads, hawait, Bool.and_eq_false_iff] at hread
    rw [hawait] at complete
    cases hchannel : c.channel with
    | none =>
      rw [hchannel, Option.all_none] at hread
      rw [hread.resolve_left Bool.noConfusion, if_neg Bool.false_ne_true] at complete
      refine ⟨_, List.prefix_rfl, ?_⟩
      simp only [Completion.labels, hchannel, Option.toList_none, List.map_nil, List.nil_append]
      exact run_single complete
    | some rv =>
      rw [hchannel, Option.all_some] at hread
      have create := step_creation (P := P) rv hw hawait
      simp only [Completion.labels, hchannel, Option.toList_some, List.map_cons, List.map_nil]
      cases hcreated : (Channel.ofJson (P.postRest rv).1).isSome with
      | false =>
        rw [hcreated, if_neg Bool.false_ne_true] at create
        exact ⟨[.created call rv], List.prefix_append _ _, run_single create⟩
      | true =>
        rw [hcreated, if_pos rfl] at create
        rw [hcreated] at hread
        rw [hread.resolve_left Bool.noConfusion, if_neg Bool.false_ne_true] at complete
        exact ⟨_, List.prefix_rfl,
          (Transition.System.run_cons _).mpr ⟨w, create, run_single complete⟩⟩

/-- The send of a message suspends at its lookup. -/
theorem waiting_awaitMember {w : World} {call : Nat} (waits : call ∉ w.lost) (qm : QueuedMessage)
    (rest : List Json) :
    (w.awaitMember call qm rest).waiting call = some ⟨qm, .memberLookup, rest⟩ :=
  waiting_eq_some.mpr ⟨waits, Std.ExtTreeMap.getElem?_insert_self⟩

theorem waiting_awaitDirectMessage {w : World} {call : Nat} (waits : call ∉ w.lost)
    (qm : QueuedMessage) (rest : List Json) :
    (w.awaitDirectMessage call qm rest).waiting call = some ⟨qm, .directMessage, rest⟩ :=
  waiting_eq_some.mpr ⟨waits, Std.ExtTreeMap.getElem?_insert_self⟩

/-- What a lookup leads to: the send is over, or its direct message is issued. -/
theorem lookup_cases (qm : QueuedMessage) (cs : Stream' Completion) :
    (∃ m, qm.sendToDiscord P (cs.get 0).now .memberLookup (P.httpInfo (cs.get 0).result) =
        .returned m ∧ sendOn P qm cs = (m, false)) ∨
    ∃ m m', qm.sendToDiscord P (cs.get 0).now .memberLookup (P.httpInfo (cs.get 0).result) =
        .suspended m ∧ m.id = qm.id ∧
      m.sendToDiscord P (cs.get 1).now .directMessage (P.httpInfo (cs.get 1).result) =
        .returned m' ∧ sendOn P qm cs = (m', true) := by
  cases hlookup : qm.sendToDiscord P (cs.get 0).now .memberLookup (P.httpInfo (cs.get 0).result) with
  | returned m =>
    refine .inl ⟨m, rfl, ?_⟩
    rw [sendOn, QueuedMessage.sendWith, hlookup]
  | suspended m =>
    obtain ⟨m', hdirect⟩ := QueuedMessage.sendToDiscord_directMessage P (cs.get 1).now m
      (P.httpInfo (cs.get 1).result)
    refine .inr ⟨m, m', rfl, (QueuedMessage.sendToDiscord_kept P (.inr hlookup)).1, hdirect, ?_⟩
    rw [sendOn, QueuedMessage.sendWith, hlookup]
    dsimp only
    rw [hdirect]

/-- The calls to Discord for the message of an element. -/
def sendCalls (call position : Nat) (id : UInt64) (issued : Bool) : List Event :=
  .memberLookup call position id :: if issued then [.directMessage call position id] else []

/-- A send whose answers can be read, from its lookup to the next element of its call. -/
theorem send_run {w : World} {call : Nat} (waits : call ∉ w.lost) (qm : QueuedMessage)
    (rest : List Json) {cs : Stream' Completion}
    (hread : sendReads P (sendOn P qm cs).2 cs = true) :
    ∃ v, (system P).run (w.awaitMember call qm rest) (sendLabels call (sendOn P qm cs).2 cs) =
        some (v.nextMessage P (cs.get (sendOn P qm cs).2.toNat).now
          (cs.get (sendOn P qm cs).2.toNat).storage call rest) ∧
      v.cache = w.cache.store (sendOn P qm cs).1 ∧
      Issued call (sendCalls call rest.length qm.id (sendOn P qm cs).2) w v := by
  simp only [sendReads, Bool.and_eq_true] at hread
  have looked := resume_run (c := cs.get 0) (waiting_awaitMember waits qm rest) hread.1
  have issued := issued_awaitMember call qm rest w
  obtain ⟨m, hlookup, hsend⟩ | ⟨m, m', hlookup, hid, hdirect, hsend⟩ := lookup_cases (P := P) qm cs
  · rw [hsend]
    refine ⟨_, ?_, rfl, issued.trans (issued_sent call rest.length m _)⟩
    rw [sendLabels, if_neg Bool.false_ne_true, List.append_nil]
    refine looked.trans ?_
    simp only [World.resume, hlookup]
    rfl
  · rw [hsend] at hread ⊢
    have direct := resume_run (c := cs.get 1)
      (waiting_awaitDirectMessage (w := w.awaitMember call qm rest) waits m rest)
      (by simpa using hread.2)
    have issued' := (issued.trans (issued_awaitDirectMessage call m rest _)).trans
      (issued_sent call rest.length m' _)
    rw [hid] at issued'
    refine ⟨_, ?_, rfl, issued'⟩
    rw [sendLabels, if_pos rfl]
    refine (Transition.System.run_append _).mpr ⟨_, looked, ?_⟩
    simp only [World.resume, hlookup]
    refine direct.trans ?_
    simp only [World.resume, hdirect]
    rfl

theorem hung_lose {w : World} {call : Nat} : Hung call w (w.lose call) :=
  ⟨List.mem_cons_self, [], rfl, by simp, by simp⟩

/-- A send is lost at the first answer that cannot be read. -/
theorem send_hangs {w : World} {call : Nat} (waits : call ∉ w.lost) (qm : QueuedMessage)
    (rest : List Json) {cs : Stream' Completion}
    (hread : sendReads P (sendOn P qm cs).2 cs = false) :
    ∃ taken v, taken <+: sendLabels call (sendOn P qm cs).2 cs ∧
      (system P).run (w.awaitMember call qm rest) taken = some v ∧ Hung call w v := by
  have hw := waiting_awaitMember waits qm rest
  have issued := issued_awaitMember call qm rest w
  cases hlooked : (cs.get 0).reads P .memberLookup with
  | false =>
    obtain ⟨taken, htaken, hrun⟩ := lose_run (P := P) hw hlooked
    exact ⟨taken, _, htaken.trans (List.prefix_append _ _), hrun, hung_lose.after issued (by simp)⟩
  | true =>
    rw [sendReads, hlooked, Bool.true_and] at hread
    obtain ⟨m, -, hsend⟩ | ⟨m, m', hlookup, -, -, hsend⟩ := lookup_cases (P := P) qm cs
    · rw [hsend] at hread
      cases hread
    · rw [hsend] at hread ⊢
      have looked := resume_run (c := cs.get 0) hw hlooked
      simp only [World.resume, hlookup] at looked
      obtain ⟨taken, htaken, hrun⟩ := lose_run (P := P) (c := cs.get 1)
        (waiting_awaitDirectMessage (w := w.awaitMember call qm rest) waits m rest)
        (by simpa using hread)
      refine ⟨_, _, ?_, (Transition.System.run_append _).mpr ⟨_, looked, hrun⟩,
        hung_lose.after (issued.trans (issued_awaitDirectMessage call m rest _)) (by simp)⟩
      rw [sendLabels, if_pos rfl]
      exact (List.prefix_append_right_inj _).mpr htaken

/-- **The run of a call.** On a stream of completions that can be read, the suspended and
resumed call carries out `handle`. -/
theorem nextMessage_run (call : Nat) (elements : List Json) :
    ∀ (now : Int) (storage : Nat → UInt64) (cs : Stream' Completion) (w : World),
      call ∉ w.lost → answersRead P now storage elements cs = true →
      ∃ w', (system P).run (w.nextMessage P now storage call elements)
          (consumed call (handle P now storage elements cs) cs) = some w' ∧
        Ran P call (handle P now storage elements cs) w w' := by
  induction elements with
  | nil =>
    intro now storage cs w _ _
    exact ⟨_, rfl, ran_finishBatch now call w⟩
  | cons message rest ih =>
    intro now storage cs w waits hread
    obtain ⟨e, he, heq⟩ | ⟨qm, hqm, heq⟩ := handle_cases (P := P) now storage message rest cs
    · rw [answersRead_error he] at hread
      rw [heq]
      obtain ⟨w', hrun, ran⟩ := ih now storage cs (w.emit (.rejected call rest.length e.what)) waits
        hread
      rw [World.nextMessage, he]
      exact ⟨w', hrun, ran.after (issued_rejected call rest.length e.what w) rfl rfl⟩
    · rw [answersRead_ok hqm, Bool.and_eq_true] at hread
      obtain ⟨v, hsend, hcache, issued⟩ := send_run (P := P) waits qm rest hread.1
      generalize hs : sendOn P qm cs = sent at heq hread hsend hcache issued
      obtain ⟨m, sent⟩ := sent
      obtain ⟨w', hrun, ran⟩ := ih (cs.get sent.toNat).now (cs.get sent.toNat).storage
        (cs.drop (sent.toNat + 1)) v (issued.lost ▸ waits) hread.2
      rw [heq, World.nextMessage, hqm]
      refine ⟨w', ?_, ran.after issued ?_ ?_⟩
      · exact (Transition.System.run_append _).mpr ⟨_, hsend, hrun⟩
      · have hid : m.id = qm.id := by
          rw [← (sendWith_kept (P := P) _ _ qm _ _).1, ← sendOn, hs]
        rw [discordCalls, length_handle, hid]
        rfl
      · rw [cacheAfter, hcache]
        rfl

/-- The call hangs at the first answer that cannot be read. -/
theorem nextMessage_hangs (call : Nat) (elements : List Json) :
    ∀ (now : Int) (storage : Nat → UInt64) (cs : Stream' Completion) (w : World),
      call ∉ w.lost → answersRead P now storage elements cs = false →
      ∃ taken w', taken <+: consumed call (handle P now storage elements cs) cs ∧
        (system P).run (w.nextMessage P now storage call elements) taken = some w' ∧
        Hung call w w' := by
  induction elements with
  | nil =>
    intro now storage cs w _ hread
    cases hread
  | cons message rest ih =>
    intro now storage cs w waits hread
    obtain ⟨e, he, heq⟩ | ⟨qm, hqm, heq⟩ := handle_cases (P := P) now storage message rest cs
    · rw [answersRead_error he] at hread
      rw [heq]
      obtain ⟨taken, w', htaken, hrun, hung⟩ :=
        ih now storage cs (w.emit (.rejected call rest.length e.what)) waits hread
      rw [World.nextMessage, he]
      exact ⟨taken, w', htaken, hrun,
        hung.after (issued_rejected call rest.length e.what w) (by simp)⟩
    · rw [answersRead_ok hqm] at hread
      rw [heq, World.nextMessage, hqm]
      cases hsent : sendReads P (sendOn P qm cs).2 cs with
      | false =>
        obtain ⟨taken, v, htaken, hrun, hung⟩ := send_hangs (P := P) waits qm rest hsent
        exact ⟨taken, v, htaken.trans (List.prefix_append _ _), hrun, hung⟩
      | true =>
        rw [hsent, Bool.true_and] at hread
        obtain ⟨v, hsend, -, issued⟩ := send_run (P := P) waits qm rest hsent
        obtain ⟨taken, w', htaken, hrun, hung⟩ := ih _ _ _ v (issued.lost ▸ waits) hread
        refine ⟨_, w', ?_, (Transition.System.run_append _).mpr ⟨_, hsend, hrun⟩,
          hung.after issued ?_⟩
        · exact (List.prefix_append_right_inj _).mpr htaken
        · intro n entries hmem
          rw [sendCalls] at hmem
          split at hmem <;> simp at hmem

/-- Everything a batch takes is for its call. -/
theorem step_consumed {w : World} {call : Nat} (lost : call ∈ w.lost) {handled : List Fate} :
    ∀ {cs : Stream' Completion} {l : Label}, l ∈ consumed call handled cs → step P w l = none := by
  have stopped : w.waiting call = none := if_pos lost
  have labels : ∀ {awaiting : Await} {c : Completion} {l : Label}, l ∈ c.labels call awaiting →
      step P w l = none := by
    intro awaiting c l hl
    rcases List.mem_append.mp hl with hl | hl
    · cases awaiting with
      | memberLookup => cases hl
      | directMessage =>
        obtain ⟨rv, -, rfl⟩ := List.mem_map.mp hl
        simp [step, stopped]
    · rw [List.mem_singleton.mp hl]
      simp [step, stopped]
  induction handled with
  | nil =>
    intro cs l hl
    cases hl
  | cons fate handled ih =>
    intro cs l hl
    cases fate with
    | rejected what => exact ih hl
    | sent m issued =>
      rcases List.mem_append.mp hl with hl | hl
      · rcases List.mem_append.mp hl with hl | hl
        · exact labels hl
        · split at hl
          · exact labels hl
          · cases hl
      · exact ih hl

/-! ### Without a rejected element -/

theorem skip_of_lt {n i : Nat} (h : i < n) (storage : Nat → UInt64) : skip n storage i = storage i :=
  if_pos h

theorem skip_of_le {n i : Nat} (h : n ≤ i) (storage : Nat → UInt64) :
    skip n storage i = storage (i + 1) :=
  if_neg (Nat.not_lt.mpr h)

theorem sendOn_map_skip (n : Nat) (qm : QueuedMessage) (cs : Stream' Completion) :
    sendOn P qm (cs.map (Completion.skip n)) = sendOn P qm cs := rfl

/-- The elements after the rejected one. -/
theorem handle_skip_of_le {n : Nat} {elements : List Json} :
    ∀ (now : Int) (storage : Nat → UInt64) (cs : Stream' Completion), elements.length ≤ n →
      handle P now (skip n storage) elements (cs.map (Completion.skip n)) =
          handle P now storage elements cs ∧
        answersRead P now (skip n storage) elements (cs.map (Completion.skip n)) =
          answersRead P now storage elements cs := by
  induction elements with
  | nil => exact fun _ _ _ _ => ⟨rfl, rfl⟩
  | cons message rest ih =>
    intro now storage cs hlen
    have same : skip n storage rest.length = storage rest.length := skip_of_lt hlen storage
    have hle : rest.length ≤ n := Nat.le_of_succ_le hlen
    obtain ⟨e, he, heq⟩ | ⟨qm, hqm, heq⟩ := handle_cases (P := P) now storage message rest cs
    · obtain ⟨handled, reads⟩ := ih now storage cs hle
      rw [heq, handle_error (same ▸ he), answersRead_error he, answersRead_error (same ▸ he)]
      exact ⟨congrArg _ handled, reads⟩
    · rw [heq, handle_ok (same ▸ hqm), answersRead_ok hqm, answersRead_ok (same ▸ hqm),
        sendOn_map_skip, Stream'.drop_map]
      obtain ⟨handled, reads⟩ := ih _ _ (cs.drop ((sendOn P qm cs).2.toNat + 1)) hle
      exact ⟨congrArg (_ :: ·) handled, congrArg (_ && ·) reads⟩

/-- Without a rejected element, the others are handled as before. -/
theorem handle_skip {element : Json} {rest : List Json} {what : String} (done : List Json) :
    ∀ (now : Int) (storage : Nat → UInt64) (cs : Stream' Completion),
      (handle P now storage (done ++ element :: rest) cs)[done.length]? = some (.rejected what) →
      handle P now (skip rest.length storage) (done ++ rest)
          (cs.map (Completion.skip rest.length)) =
        (handle P now storage (done ++ element :: rest) cs).eraseIdx done.length ∧
      answersRead P now (skip rest.length storage) (done ++ rest)
          (cs.map (Completion.skip rest.length)) =
        answersRead P now storage (done ++ element :: rest) cs := by
  induction done with
  | nil =>
    intro now storage cs hrejected
    obtain ⟨e, he, heq⟩ | ⟨qm, -, heq⟩ := handle_cases (P := P) now storage element rest cs
    · rw [List.nil_append, List.nil_append, heq, answersRead_error he]
      exact handle_skip_of_le now storage cs (Nat.le_refl _)
    · rw [List.nil_append, heq] at hrejected
      cases hrejected
  | cons message done ih =>
    intro now storage cs hrejected
    have same : skip rest.length storage (done ++ rest).length =
        storage (done ++ element :: rest).length := by
      rw [skip_of_le (by simp), List.length_append, List.length_append, List.length_cons,
        Nat.add_assoc]
    rw [List.cons_append, List.length_cons] at hrejected
    rw [List.cons_append, List.cons_append, List.length_cons]
    obtain ⟨e, he, heq⟩ | ⟨qm, hqm, heq⟩ :=
      handle_cases (P := P) now storage message (done ++ element :: rest) cs
    · rw [heq, List.getElem?_cons_succ] at hrejected
      obtain ⟨handled, reads⟩ := ih now storage cs hrejected
      rw [heq, handle_error (same ▸ he), List.eraseIdx_cons_succ, answersRead_error he,
        answersRead_error (same ▸ he)]
      exact ⟨congrArg _ handled, reads⟩
    · rw [heq, List.getElem?_cons_succ] at hrejected
      rw [heq, handle_ok (same ▸ hqm), answersRead_ok hqm, answersRead_ok (same ▸ hqm),
        sendOn_map_skip, Stream'.drop_map, List.eraseIdx_cons_succ]
      obtain ⟨handled, reads⟩ := ih _ _ _ hrejected
      exact ⟨congrArg (_ :: ·) handled, congrArg (_ && ·) reads⟩

/-- The call on an empty array. -/
theorem batch_nil (w : World) (now : Int) (storage : Nat → UInt64) (cs : Stream' Completion) :
    ∃ w' new, (system P).run w [.deliver (.array []) now storage] = some w' ∧
      w'.log = new ++ w.log ∧ Batch P w [] now storage cs [] w' new := by
  refine ⟨_, [.returned w.nextCall, .delivered w.nextCall (.array [])], rfl, rfl, ?_⟩
  constructor
  · rfl
  · exact List.mem_cons_self
  · intro e he
    simp at he
  · exact fun _ => ⟨rfl, rfl⟩
  · exact fun h => absurd rfl h

/-- What a call that ran from its delivery did. -/
theorem Ran.batch {w w' : World} {elements : List Json} {now : Int} {storage : Nat → UInt64}
    {cs : Stream' Completion} {handled : List Fate} (keyed : Keyed w.cache)
    (untried : ∀ m ∈ sentMessages handled, m.tries = 0) (nonempty : elements ≠ [])
    (told : Told P now storage elements cs handled)
    (ran : Ran P w.nextCall handled (w.deliver (.array elements)) w') :
    ∃ new, w'.log = new ++ w.log ∧ Batch P w elements now storage cs handled w' new := by
  obtain ⟨hcache, ⟨now, hreport⟩, new, hlog, hreq, hret, hesc⟩ := ran
  have keyed' : Keyed w'.cache := hcache ▸ keyed_cacheAfter keyed handled
  refine ⟨new ++ [.delivered w.nextCall (.array elements)], ?_, ?_⟩
  · rw [hlog, List.append_assoc]
    rfl
  constructor
  · exact told
  · exact List.mem_append_left _ hret
  · intro e he
    exact (List.mem_append.mp he).elim (hesc e) (by simp)
  · exact fun h => absurd h nonempty
  · intro _
    refine ⟨w'.cache.snapshot, ?_, ?_, ⟨now, ?_⟩, fun id m => mem_snapshot_iff keyed'⟩
    · rw [requests_append, hreq]
      rfl
    · rw [hcache]
      exact entries_cacheAfter keyed untried
    · rw [ids_snapshot keyed']
      exact hreport

/-- The call hangs where an answer cannot be read. -/
theorem hangs_of_unread {w : World} (waits : w.nextCall ∉ w.lost) (elements : List Json)
    (now : Int) (storage : Nat → UInt64) (cs : Stream' Completion)
    (hread : answersRead P now storage elements cs = false) :
    ∃ taken w', taken <+: consumed w.nextCall (handle P now storage elements cs) cs ∧
      (system P).run w (.deliver (.array elements) now storage :: taken) = some w' ∧
      Hung w.nextCall w w' := by
  cases elements with
  | nil => cases hread
  | cons message rest =>
    obtain ⟨taken, w', htaken, hrun, hlost, new, hlog, hret, hrep⟩ :=
      nextMessage_hangs (P := P) w.nextCall (message :: rest) now storage cs
        (w.deliver (.array (message :: rest))) waits hread
    refine ⟨taken, w', htaken, (Transition.System.run_cons _).mpr ⟨_, rfl, hrun⟩, hlost,
      new ++ [.delivered w.nextCall (.array (message :: rest))], ?_, ?_, ?_⟩
    · rw [hlog, List.append_assoc]
      rfl
    · simpa using hret
    · intro n entries
      simpa using hrep n entries

/-- The call was delivered the elements and carries out `handle`, as `Batch` describes it. -/
def Completes (P : Platform) (w : World) (elements : List Json) (now : Int)
    (storage : Nat → UInt64) (cs : Stream' Completion) : Prop :=
  ∃ w' new, (system P).run w (.deliver (.array elements) now storage ::
      consumed w.nextCall (handle P now storage elements cs) cs) = some w' ∧
    w'.log = new ++ w.log ∧
    Batch P w elements now storage cs (handle P now storage elements cs) w' new

/-- A call one of whose answers cannot be read never returns. -/
theorem Completes.reads {w : World} (waits : w.nextCall ∉ w.lost) {elements : List Json}
    {now : Int} {storage : Nat → UInt64} {cs : Stream' Completion}
    (completes : Completes P w elements now storage cs) :
    answersRead P now storage elements cs = true := by
  obtain ⟨w', new, hrun, hlog, hbatch⟩ := completes
  by_contra hread
  rw [Bool.not_eq_true] at hread
  obtain ⟨taken, v, ⟨left, hleft⟩, htaken, hlost, b, hlogv, hret, -⟩ :=
    hangs_of_unread waits elements now storage cs hread
  rw [← hleft, ← List.cons_append] at hrun
  obtain ⟨v', hv', hrest⟩ := (Transition.System.run_append _).mp hrun
  rw [htaken, Option.some.injEq] at hv'
  subst hv'
  cases left with
  | nil =>
    cases hrest
    rw [hlogv, List.append_cancel_right_eq] at hlog
    exact hret (hlog ▸ hbatch.returned)
  | cons l left =>
    have hl : l ∈ consumed w.nextCall (handle P now storage elements cs) cs := by
      rw [← hleft]
      exact List.mem_append_right _ List.mem_cons_self
    obtain ⟨u, hstep, -⟩ := (Transition.System.run_cons _).mp hrest
    have hstep : step P v l = some u := hstep
    rw [step_consumed hlost hl] at hstep
    cases hstep

theorem keyed_store {cache : ProcessedMessageCache} (keyed : Keyed cache) (m : QueuedMessage) :
    Keyed (cache.store m) := by
  intro id q hq
  rw [ProcessedMessageCache.getElem?_store] at hq
  split at hq
  · rename_i hid
    rw [← Option.some.inj hq, hid.1]
  · exact keyed id q hq

theorem keyed_empty : Keyed {} := by
  intro id m hm
  simp at hm

/-- One entry a sweep keeps and one it erases. -/
def partlyTried : ProcessedMessageCache :=
  (({} : ProcessedMessageCache).store { QueuedMessage.constructed with id := 1, tries := 2 }).store
    { QueuedMessage.constructed with id := 2, tries := 3 }

/-- A rejected element, a new message and one that is in the cache. -/
def mixedElements : List Json :=
  [.null, sampleMessage 7, sampleMessage 1]

/-- Every remote call succeeds. -/
def allSucceed : Stream' Completion :=
  Stream'.const { result := { status := 200, body := "\x7b\x7d" }, now := 5, storage := fun _ => 0 }

example : handle samplePlatform 1 (fun _ => 0) mixedElements allSucceed =
    [.rejected "message does not contain valid embed object",
     .sent { QueuedMessage.constructed with processedAt := 5 } true,
     .sent { QueuedMessage.constructed with id := 1, processedAt := 5 } true] := by
  decide +kernel

/-- Each batch completes, whatever Discord answers. -/
def BatchesComplete (P : Platform) : Prop :=
  ∀ w : World, Keyed w.cache → w.nextCall ∉ w.lost → ∀ elements now storage cs,
    Completes P w elements now storage cs

end Messages
