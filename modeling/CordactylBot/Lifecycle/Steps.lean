import CordactylBot.Lifecycle.System

/-!
What a step of the bot can do.

* `step_cases` — every step, by what it completes and what it does. Pulling the
  payload and reading a reply throw nothing, so no step of the bot does.
-/

namespace Lifecycle

open Lifecycle.Bot

variable {P : Platform} {isCentral : Bool}

def postedKind : Event → Option Kind
  | .posted kind _ => some kind
  | _ => none

/-- The acknowledgements posted, in their order. -/
def posts (log : List Event) : List Kind :=
  (log.filterMap postedKind).reverse

/-- Events of other kinds post nothing. -/
theorem posts_append {new log : List Event} (h : ∀ e ∈ new, postedKind e = none) :
    posts (new ++ log) = posts log := by
  rw [posts, List.filterMap_append, List.filterMap_eq_nil_iff.mpr h, List.nil_append]
  rfl

/-! ### Posting does not throw -/

/-- The bot after an acknowledgement has been posted. -/
def Bot.posted (b : Bot) (kind : Kind) (r : Request) : Bot :=
  ({ b with acknowledge := { b.acknowledge with payload := .null } }.request r).emit
    (.posted kind (b.acknowledge.payload.put "application"
      (AcknowledgePayload.applicationValue b.acknowledge.currentApplication)))

theorem post_eq {b : Bot} (h : b.acknowledge.payload.Mergeable) (kind : Kind) (r : Request) :
    b.post kind r = .ok (b.posted kind r) := by
  simp only [post, AcknowledgePayload.pullPayload_eq h, bind, Except.bind]
  rfl

/-- A request that is outstanding after another was sent is that one or was before. -/
theorem request_cases {b : Bot} {r r' : Request} {n : Nat}
    (h : (b.request r).requests[n]? = some r') :
    (n = b.nextRequest ∧ r' = r) ∨ b.requests[n]? = some r' := by
  rw [request, Std.ExtTreeMap.getElem?_insert] at h
  split at h
  · rename_i heq
    rw [Std.LawfulEqCmp.compare_eq_iff_eq] at heq
    exact .inl ⟨heq.symm, (Option.some.inj h).symm⟩
  · exact .inr h

theorem taken_cases {b : Bot} {n m : Nat} {r : Request} (h : (b.taken n).requests[m]? = some r) :
    m ≠ n ∧ b.requests[m]? = some r := by
  rw [taken, Std.ExtTreeMap.getElem?_erase] at h
  split at h
  · cases h
  · rename_i hne
    rw [Std.LawfulEqCmp.compare_eq_iff_eq] at hne
    exact ⟨Ne.symm hne, h⟩

/-! ### The rest of a coroutine -/

/-- What `send_acknowledgement` and the startup coroutine do once nothing is left to
wait for: they log, ask for an edit of the application, and the startup coroutine goes
on to its next suspension point or finishes. -/
structure Tail (isStartup : Bool) (b b' : Bot) : Prop where
  acknowledge : b'.acknowledge = b.acknowledge
  status : b'.status = b.status
  log : ∃ lines : List String, b'.log = lines.map Event.logged ++ b.log
  requests : ∀ (n : Nat) (r : Request), b'.requests[n]? = some r → b.requests[n]? = some r ∨ r = .edit
  startup : b'.startup = b.startup ∨
    ((isStartup = true ∨ ∃ call, b.startup = .processing call) ∧
      (b'.startup = .finished ∨ ∃ call, b'.startup = .processing call))
  timers : ∀ h : Nat, b'.timers.nextTimer[h]? = some .acknowledge →
    b.timers.nextTimer[h]? = some .acknowledge ∨ b'.startup = .finished

theorem tail_refl (isStartup : Bool) (b : Bot) : Tail isStartup b b where
  acknowledge := rfl
  status := rfl
  log := ⟨[], rfl⟩
  requests _ _ h := .inl h
  startup := .inl rfl
  timers _ h := .inl h

/-- Lines were logged before. -/
theorem Tail.logLines {isStartup : Bool} {b b' : Bot} {lines : List String}
    (h : Tail isStartup (b.logLines lines) b') : Tail isStartup b b' where
  acknowledge := h.acknowledge
  status := h.status
  log := by
    obtain ⟨more, hlog⟩ := h.log
    refine ⟨more ++ lines.reverse, ?_⟩
    rw [hlog, Bot.logLines, List.map_append, List.append_assoc, List.map_reverse]
  requests := h.requests
  startup := h.startup
  timers := h.timers

theorem editCurrentApplication_cases (b : Bot) :
    b.editCurrentApplication = .ok b ∨ b.editCurrentApplication = .ok (b.request .edit) := by
  obtain ⟨body, hbody⟩ := AcknowledgePayload.editBody_ok b.acknowledge.currentApplication
  simp only [editCurrentApplication, hbody, bind, Except.bind]
  cases body.isEmpty
  · exact .inr rfl
  · exact .inl rfl

theorem finishStartup_eq (isCentral : Bool) (b : Bot) :
    ∃ e : Bot, (e = b ∨ e = b.request .edit) ∧ b.finishStartup isCentral = .ok { e with
      timers := (e.timers.startTimer .acknowledge).startTimer .fetch
      acknowledgeTimer := e.timers.nextHandle
      startup := .finished } := by
  cases isCentral with
  | true => exact ⟨b, .inl rfl, rfl⟩
  | false =>
    rcases editCurrentApplication_cases b with h | h
    · refine ⟨b, .inl rfl, ?_⟩
      simp only [finishStartup, Bool.false_eq_true, if_false, h]
      rfl
    · refine ⟨b.request .edit, .inr rfl, ?_⟩
      simp only [finishStartup, Bool.false_eq_true, if_false, h]
      rfl

theorem finishStartup_tail (isCentral : Bool) (b : Bot) :
    ∃ b', b.finishStartup isCentral = .ok b' ∧ b'.startup = .finished ∧
      b'.messages = b.messages ∧ Tail true b b' := by
  obtain ⟨e, hcases, hfinish⟩ := finishStartup_eq isCentral b
  refine ⟨_, hfinish, rfl, ?_, ?_⟩
  · rcases hcases with rfl | rfl <;> rfl
  · constructor
    · rcases hcases with rfl | rfl <;> rfl
    · rcases hcases with rfl | rfl <;> rfl
    · exact ⟨[], by rcases hcases with rfl | rfl <;> rfl⟩
    · intro n r hr
      rcases hcases with rfl | rfl
      · exact .inl hr
      · rcases request_cases hr with ⟨-, rfl⟩ | hr
        · exact .inr rfl
        · exact .inl hr
    · exact .inr ⟨.inl rfl, .inl rfl⟩
    · exact fun _ _ => .inr rfl

theorem goOn_tail (isCentral : Bool) (b : Bot) :
    Tail false b (b.goOn isCentral) ∧ (b.goOn isCentral).messages = b.messages := by
  unfold goOn
  split
  · rename_i call hcall
    split
    · obtain ⟨b', hfinish, hfinished, hmessages, tail⟩ := finishStartup_tail isCentral b
      rw [hfinish]
      refine ⟨?_, hmessages⟩
      exact { tail with startup := .inr ⟨.inr ⟨call, hcall⟩, .inl hfinished⟩ }
    · exact ⟨tail_refl _ _, rfl⟩
  · exact ⟨tail_refl _ _, rfl⟩

/-- The call of `process_new_messages` a reply leads to, if it lists messages. -/
def Delivers (P : Platform) (response : HttpRequestCompletion) (now : Int)
    (storage : Nat → UInt64) (w w' : World) : Prop :=
  (∀ elements, AcknowledgePayload.Lists P response elements →
      Messages.step P w (.deliver (.array elements) now storage) = some w') ∧
    ((∀ elements, ¬ AcknowledgePayload.Lists P response elements) → w' = w)

theorem handleBody_tail (isCentral isStartup : Bool) (response : HttpRequestCompletion) (now : Int)
    (storage : Nat → UInt64) (b : Bot) :
    Tail isStartup b (b.handleBody P isCentral isStartup response now storage) ∧
      Delivers P response now storage b.messages
        (b.handleBody P isCentral isStartup response now storage).messages := by
  obtain ⟨lines, messages, hread, hlists⟩ := AcknowledgePayload.readBody_spec P response
  unfold handleBody
  rw [hread]
  cases messages with
  | none =>
    have unlisted : ∀ elements, ¬ AcknowledgePayload.Lists P response elements := by
      intro elements h
      cases (hlists (.array elements)).mpr ⟨elements, rfl, h⟩
    have delivers : ∀ w', w' = b.messages → Delivers P response now storage b.messages w' :=
      fun w' hw' => ⟨fun elements h => absurd h (unlisted elements), fun _ => hw'⟩
    cases isStartup with
    | false => exact ⟨(tail_refl false (b.logLines lines)).logLines, delivers _ rfl⟩
    | true =>
      obtain ⟨b', hfinish, -, hmessages, tail⟩ := finishStartup_tail isCentral (b.logLines lines)
      dsimp only
      rw [if_pos rfl, hfinish]
      exact ⟨tail.logLines, delivers _ hmessages⟩
  | some m =>
    obtain ⟨elements, rfl, hlisted⟩ := (hlists m).mp rfl
    have delivers : ∀ w', Messages.step P b.messages (.deliver (.array elements) now storage) = some w' →
        Delivers P response now storage b.messages w' := by
      intro w' hw'
      refine ⟨fun elements' h => ?_, fun h => absurd hlisted (h elements)⟩
      have := (hlists (.array elements')).mpr ⟨elements', rfl, h⟩
      cases this
      exact hw'
    cases isStartup with
    | false =>
      refine ⟨@Tail.logLines false b _ lines ?_, delivers _ rfl⟩
      exact ⟨rfl, rfl, ⟨[], rfl⟩, fun _ _ h => .inl h, .inl rfl, fun _ h => .inl h⟩
    | true =>
      dsimp only
      rw [if_pos rfl]
      set processing : Bot := { b.logLines lines with
        messages := (b.messages.deliver (.array elements)).processNewMessages P now storage
          b.messages.nextCall (.array elements)
        startup := .processing b.messages.nextCall } with hprocessing
      obtain ⟨tail, hmessages⟩ := goOn_tail isCentral processing
      refine ⟨@Tail.logLines true b _ lines ?_, delivers _ ?_⟩
      · refine ⟨tail.acknowledge, tail.status, tail.log, tail.requests, .inr ⟨.inl rfl, ?_⟩,
          tail.timers⟩
        rcases tail.startup with h | ⟨-, h⟩
        · exact .inr ⟨_, h⟩
        · exact h
      · exact congrArg some hmessages.symm

/-! ### Everything a step can do -/

/-- Only lines and caught exceptions. -/
def Quiet (new : List Event) : Prop :=
  ∀ e ∈ new, (∃ line, e = .logged line) ∨ ∃ x, e = .caught x

theorem quiet_lines (lines : List String) : Quiet (lines.map .logged) := by
  intro e he
  obtain ⟨line, -, rfl⟩ := List.mem_map.mp he
  exact .inl ⟨line, rfl⟩

theorem quiet_reverse (lines : List String) : Quiet (lines.map .logged).reverse := by
  rw [← List.map_reverse]
  exact quiet_lines _

/-- The bot in the signal handler, before it calls `exit`. -/
def Bot.interrupted (b : Bot) (signal : Nat) : Bot :=
  { b with
    timers := b.timers.stopTimer b.acknowledgeTimer
    log := .logged ("Stopping Discord-Bot... Signal: " ++ toString signal) :: .signalled signal :: b.log }

theorem signalHandler_eq {b : Bot} (h : b.acknowledge.payload.Mergeable) (signal : Nat) :
    b.signalHandler signal = { (b.interrupted signal).posted .shutdown (.shutdown signal) with
      timers := (b.interrupted signal).timers.startTimer .timeout } := by
  have mergeable : (b.interrupted signal).acknowledge.payload.Mergeable := h
  have hexit : (b.interrupted signal).exit signal =
      .ok ((b.interrupted signal).posted .shutdown (.shutdown signal)) := post_eq mergeable _ _
  unfold signalHandler
  dsimp only
  split
  · rename_i b' hok
    obtain rfl := Except.ok.inj (hexit.symm.trans hok)
    rfl
  · rename_i e herror
    cases hexit.symm.trans herror

/-- **The steps of the bot**, by their label. -/
inductive Stepped (P : Platform) (isCentral : Bool) (b : Bot) : Label → Bot → Prop where
  | ready (first : b.startup = .notReady) :
      Stepped P isCentral b .ready ({ b with startup := .fetching }.request (.fetch true))
  | readyAgain (again : b.startup ≠ .notReady) : Stepped P isCentral b .ready b
  /-- a fetch or an edit completes and nothing of the startup depends on it -/
  | settled {n : Nat} {r : Request} {response : HttpRequestCompletion} {now : Int}
      {storage : Nat → UInt64} {acknowledge : AcknowledgePayload} {new : List Event}
      (hn : b.requests[n]? = some r)
      (hr : r = .edit ∨ r = .fetch false ∨
        (r = .fetch true ∧ (AcknowledgePayload.parsedApplication P response).isOk = false))
      (payload : acknowledge.payload = b.acknowledge.payload) (quiet : Quiet new) :
      Stepped P isCentral b (.completed n response now storage)
        { b.taken n with acknowledge, log := new ++ b.log }
  /-- the startup coroutine has its application and posts its acknowledgement -/
  | fetched {n : Nat} {response : HttpRequestCompletion} {now : Int} {storage : Nat → UInt64}
      {acknowledge : AcknowledgePayload} {new : List Event}
      (hn : b.requests[n]? = some (.fetch true))
      (filled : (AcknowledgePayload.parsedApplication P response).isOk = true)
      (payload : acknowledge.payload = b.acknowledge.payload) (quiet : Quiet new) :
      Stepped P isCentral b (.completed n response now storage)
        ({ b.taken n with acknowledge, log := new ++ b.log, startup := .acknowledging }.posted
          .startup (.acknowledgement true))
  | replied {n : Nat} {isStartup : Bool} {response : HttpRequestCompletion} {now : Int}
      {storage : Nat → UInt64} {b' : Bot} (hn : b.requests[n]? = some (.acknowledgement isStartup))
      (valid : ¬ (response.status = 401 ∧ isCentral = false))
      (tail : Tail isStartup ((b.taken n).replied response) b')
      (delivers : Delivers P response now storage b.messages b'.messages) :
      Stepped P isCentral b (.completed n response now storage) b'
  /-- the API refuses the token in tenant mode -/
  | refused {n : Nat} {isStartup : Bool} {response : HttpRequestCompletion} {now : Int}
      {storage : Nat → UInt64} {b' : Bot} (hn : b.requests[n]? = some (.acknowledgement isStartup))
      (invalid : response.status = 401 ∧ isCentral = false)
      (tail : Tail isStartup
        (((b.taken n).replied response).posted .shutdown (.shutdown exitInvalidApiToken)) b')
      (delivers : Delivers P response now storage b.messages b'.messages) :
      Stepped P isCentral b (.completed n response now storage) b'
  | raised {n signal : Nat} {response : HttpRequestCompletion} {now : Int}
      {storage : Nat → UInt64} (hn : b.requests[n]? = some (.shutdown signal)) :
      Stepped P isCentral b (.completed n response now storage) ((b.taken n).raise signal response)
  | resumed {call : Nat} {result : Answer} {now : Int} {storage : Nat → UInt64}
      {w : World} {b' : Bot}
      (hstep : Messages.step P b.messages (.complete call result now storage) = some w)
      (tail : Tail false { b with messages := w } b') (messages : b'.messages = w) :
      Stepped P isCentral b (.resumed call result now storage) b'
  | created {call : Nat} {result : HttpRequestCompletion} {w : World}
      (hstep : Messages.step P b.messages (.created call result) = some w) :
      Stepped P isCentral b (.created call result) { b with messages := w }
  | reportAnswered {n : Nat} {response : HttpRequestCompletion} {w : World}
      (hstep : Messages.step P b.messages (.answer n response) = some w) :
      Stepped P isCentral b (.reportAnswered n response) { b with messages := w }
  | dropped {handle : Nat} (deleted : handle ∈ b.timers.deletedTimers) :
      Stepped P isCentral b (.tick handle) { b with timers := b.timers.drop handle }
  | acknowledged {handle : Nat} (due : b.timers.nextTimer[handle]? = some .acknowledge)
      (live : handle ∉ b.timers.deletedTimers) :
      Stepped P isCentral b (.tick handle) (b.posted .plain (.acknowledgement false))
  | refetched {handle : Nat} (due : b.timers.nextTimer[handle]? = some .fetch)
      (live : handle ∉ b.timers.deletedTimers) :
      Stepped P isCentral b (.tick handle) (b.request (.fetch false))
  | timedOut {handle : Nat} (due : b.timers.nextTimer[handle]? = some .timeout)
      (live : handle ∉ b.timers.deletedTimers) :
      Stepped P isCentral b (.tick handle) (b.timeout handle)
  | signalled {signal : Nat} :
      Stepped P isCentral b (.signal signal)
        { (b.interrupted signal).posted .shutdown (.shutdown signal) with
          timers := (b.interrupted signal).timers.startTimer .timeout }

theorem handleFetch_cases {b : Bot} {n : Nat} {isStartup : Bool} {response : HttpRequestCompletion}
    (h : b.acknowledge.payload.Mergeable) (hn : b.requests[n]? = some (.fetch isStartup))
    (now : Int) (storage : Nat → UInt64) :
    Stepped P isCentral b (.completed n response now storage)
      ((b.taken n).handleFetch P isStartup response) := by
  unfold handleFetch
  cases hparsed : AcknowledgePayload.parsedApplication P response with
  | error e =>
    have hfetched : (b.taken n).acknowledge.fetched P response = .error e := by
      rw [AcknowledgePayload.fetched, hparsed]
      rfl
    rw [hfetched]
    refine @Stepped.settled P isCentral b n _ response now storage b.acknowledge [.caught e] hn ?_ rfl ?_
    · cases isStartup with
      | false => exact .inr (.inl rfl)
      | true => exact .inr (.inr ⟨rfl, by rw [hparsed]; rfl⟩)
    · intro e' he'
      exact .inr ⟨e, List.mem_singleton.mp he'⟩
  | ok application =>
    obtain ⟨acknowledge, hfetched⟩ :
        ∃ acknowledge, (b.taken n).acknowledge.fetched P response = .ok acknowledge := by
      rw [AcknowledgePayload.fetched, hparsed]
      simp only [bind, Except.bind]
      split
      · exact ⟨_, rfl⟩
      · exact ⟨_, rfl⟩
    have payload := AcknowledgePayload.fetched_payload hfetched
    have mergeable : acknowledge.payload.Mergeable := payload ▸ h
    rw [hfetched]
    dsimp only
    cases isStartup with
    | false => exact .settled hn (.inr (.inl rfl)) payload (quiet_reverse _)
    | true =>
      rw [if_pos rfl, sendAcknowledgement, post_eq mergeable]
      exact .fetched hn (by rw [hparsed]; rfl) payload (quiet_reverse _)

theorem handleEdit_cases {b : Bot} {n : Nat} {response : HttpRequestCompletion}
    (hn : b.requests[n]? = some .edit) (now : Int) (storage : Nat → UInt64) :
    Stepped P isCentral b (.completed n response now storage)
      ((b.taken n).handleEdit P response) := by
  unfold handleEdit
  dsimp only
  split
  · rename_i e he
    have quiet : ∀ lines : List String, Quiet (.caught e :: (lines.map .logged).reverse) := by
      intro lines e' he'
      rcases List.mem_cons.mp he' with rfl | he'
      · exact .inr ⟨e, rfl⟩
      · exact quiet_reverse lines e' he'
    exact @Stepped.settled P isCentral b n .edit response now storage b.acknowledge (.caught e :: _)
      hn (.inl rfl) rfl (quiet _)
  · rename_i acknowledge hedited
    exact .settled hn (.inl rfl) (AcknowledgePayload.edited_payload hedited) (quiet_reverse _)

theorem handleReply_cases {b : Bot} {n : Nat} {isStartup : Bool} {response : HttpRequestCompletion}
    (h : b.acknowledge.payload.Mergeable) (hn : b.requests[n]? = some (.acknowledgement isStartup))
    (now : Int) (storage : Nat → UInt64) :
    Stepped P isCentral b (.completed n response now storage)
      ((b.taken n).handleReply P isCentral isStartup response now storage) := by
  unfold handleReply
  dsimp only
  split
  · rename_i invalid
    have mergeable : ((b.taken n).replied response).acknowledge.payload.Mergeable := h
    rw [Bot.exit, post_eq mergeable]
    obtain ⟨tail, delivers⟩ := handleBody_tail (P := P) isCentral isStartup response now storage
      (((b.taken n).replied response).posted .shutdown (.shutdown exitInvalidApiToken))
    exact .refused hn invalid tail delivers
  · rename_i valid
    obtain ⟨tail, delivers⟩ := handleBody_tail (P := P) isCentral isStartup response now storage
      ((b.taken n).replied response)
    exact .replied hn valid tail delivers

/-- **Step inversion.** -/
theorem step_cases {b b' : Bot} {l : Label} (h : b.acknowledge.payload.Mergeable)
    (hstep : step P isCentral b l = some b') : Stepped P isCentral b l b' := by
  unfold step at hstep
  split at hstep
  · cases hstep
  cases l with
  | ready =>
    cases hstep
    unfold ready
    split
    · rename_i first
      exact .ready first
    · rename_i again
      exact .readyAgain fun first => again first
  | completed n response now storage =>
    obtain ⟨r, hn, rfl⟩ := Option.map_eq_some_iff.mp hstep
    cases r with
    | fetch isStartup => exact handleFetch_cases h hn now storage
    | edit => exact handleEdit_cases hn now storage
    | acknowledgement isStartup => exact handleReply_cases h hn now storage
    | shutdown signal => exact .raised hn
  | resumed call result now storage =>
    obtain ⟨w, hw, rfl⟩ := Option.map_eq_some_iff.mp hstep
    obtain ⟨tail, messages⟩ := goOn_tail isCentral { b with messages := w }
    exact .resumed hw tail messages
  | created call result =>
    obtain ⟨w, hw, rfl⟩ := Option.map_eq_some_iff.mp hstep
    exact .created hw
  | reportAnswered n response =>
    obtain ⟨w, hw, rfl⟩ := Option.map_eq_some_iff.mp hstep
    exact .reportAnswered hw
  | tick handle =>
    obtain ⟨timer, due, rfl⟩ := Option.map_eq_some_iff.mp hstep
    unfold tick
    split
    · rename_i deleted
      exact .dropped deleted
    · rename_i live
      cases timer with
      | acknowledge =>
        rw [sendAcknowledgement, post_eq h]
        exact .acknowledged due live
      | fetch => exact .refetched due live
      | timeout => exact .timedOut due live
  | signal signal =>
    dsimp only at hstep
    split at hstep
    · cases hstep
      rw [signalHandler_eq h]
      exact .signalled
    · cases hstep

end Lifecycle
