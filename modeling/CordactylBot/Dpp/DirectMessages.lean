import CordactylBot.Dpp.Fill
import CordactylBot.Dpp.Message
import CordactylBot.Library.EventLog
import CordactylBot.Library.Transition
import Std.Data.ExtTreeMap.Lemmas

/-!
Direct messages (`cluster/dm.cpp`, `cluster::start`, `channel_create`).

A direct message goes to the channel the cluster knows for its recipient; when it knows none,
a channel is created first and the message is posted when the answer comes. Channels are
learned from the list of channels fetched at the start, from the gateway and from the answers
of creations, in whatever order these come, and each overwrites what was known before.

* `delivered_last_named` — a message goes to the channel that was named last.
* `posted_once` — each message is posted once, at the latest when its answer has come.
-/

namespace Dpp

/-! ### The cluster -/

namespace DirectMessages

/-- What happens, in the terms Discord could observe. -/
inductive Event where
  /-- the gateway announced a channel -/
  | announced (channel : Channel)
  /-- the list of channels came, to be gone through in this order -/
  | listed (channels : List Channel)
  /-- the list could not be fetched -/
  | unlisted
  /-- `direct_message_create` was called -/
  | requested (call : Nat) (user : UInt64) (m : Message)
  /-- the creation of a channel for the user was posted -/
  | creating (call : Nat) (user : UInt64)
  /-- the creation was answered -/
  | created (call : Nat) (user : UInt64) (http : HttpRequestCompletion) (channel : Channel)
  /-- a message was posted -/
  | posted (call : Nat) (user : UInt64) (m : Message)
  /-- the answer of the creation could not be read; D++ caught what reading it threw -/
  | caught (call : Nat) (user : UInt64)
deriving DecidableEq

end DirectMessages

/-- A direct message whose channel is being created. -/
structure Creation where
  user : UInt64
  message : Message

/-- What the cluster keeps about direct messages. `listing` says that the list fetched at the
start has not come. -/
structure DirectMessages where
  dmChannels : Std.ExtTreeMap UInt64 UInt64 compare := ∅
  listing : Bool := true
  creations : Std.ExtTreeMap Nat Creation compare := ∅
  nextCall : Nat := 0
  log : List DirectMessages.Event := []

namespace DirectMessages

variable (P : Platform)

def emit (s : DirectMessages) (e : Event) : DirectMessages :=
  { s with log := e :: s.log }

/-- `get_dm_channel`. -/
def getDmChannel (s : DirectMessages) (user : UInt64) : UInt64 :=
  s.dmChannels[user]?.getD 0

/-- `set_dm_channel`. -/
def setDmChannel (s : DirectMessages) (user channel : UInt64) : DirectMessages :=
  { s with dmChannels := s.dmChannels.insert user channel }

/-- `set_dm_channel` for each recipient. -/
def setRecipients (s : DirectMessages) (channel : Channel) : DirectMessages :=
  channel.recipients.foldl (fun s user => s.setDmChannel user channel.id) s

/-- `message_create`. -/
def messageCreate (s : DirectMessages) (call : Nat) (user : UInt64) (m : Message) :
    DirectMessages :=
  s.emit (.posted call user m)

/-- `direct_message_create`. -/
def directMessageCreate (s : DirectMessages) (user : UInt64) (m : Message) : DirectMessages :=
  let call := s.nextCall
  let s := { s with nextCall := call + 1 }.emit (.requested call user m)
  let dmChannelId := s.getDmChannel user
  if dmChannelId = 0 then
    { s with creations := s.creations.insert call { user, message := m } }.emit
      (.creating call user)
  else s.messageCreate call user { m with channelId := dmChannelId }

/-- The callback of `create_dm_channel`, and in it that of `direct_message_create`. -/
def created (s : DirectMessages) (call : Nat) (creation : Creation)
    (rv : HttpRequestCompletion) : DirectMessages :=
  let s := { s with creations := s.creations.erase call }
  match Channel.ofJson (P.postRest rv).1 with
  | none => s.emit (.caught call creation.user)
  | some c =>
      let s := s.emit (.created call creation.user (P.httpInfo rv) c)
      let s := if P.isError (P.httpInfo rv) then s else s.setDmChannel creation.user c.id
      let s := s.setDmChannel creation.user c.id
      s.messageCreate call creation.user { creation.message with channelId := c.id }

/-- The callback of `current_user_get_dms`; `order` is the order of the unordered map. -/
def listed (s : DirectMessages) (order : List Channel) : DirectMessages :=
  order.foldl setRecipients ({ s with listing := false }.emit (.listed order))

/-- `channel_create::handle`, up to the event handlers of the bot. -/
def announced (s : DirectMessages) (channel : Channel) : DirectMessages :=
  (s.emit (.announced channel)).setRecipients channel

/-- What happens from outside. A channel is announced over the recipients its entry in the
channel cache has; a list is gone through in the order of an unordered map. -/
inductive Label where
  | announce (known : List UInt64) (d : Json)
  | list (rv : HttpRequestCompletion) (order : List Channel)
  | direct (user : UInt64) (m : Message)
  | created (call : Nat) (rv : HttpRequestCompletion)

def step (s : DirectMessages) : Label → Option DirectMessages
  | .announce known d => (Channel.fillFromJson known d).map s.announced
  | .list rv order =>
      if s.listing = false then none
      else if P.isError (P.httpInfo rv) then some ({ s with listing := false }.emit .unlisted)
      else
        match Channel.listOfJson (P.postRest rv).1 with
        | none => some ({ s with listing := false }.emit .unlisted)
        | some channels => if order.Perm channels then some (s.listed order) else none
  | .direct user m => some (s.directMessageCreate user m)
  | .created call rv => s.creations[call]?.map fun creation => s.created P call creation rv

/-- The system every run of the cluster's direct messages is a run of. -/
def system : Transition.System DirectMessages Label where
  start := {}
  step := step P

/-! ### Channels by their recipients -/

/-- The channels an event names, each for a user, in the order they are taken over. -/
def Event.names : Event → List (UInt64 × UInt64)
  | .announced channel => channel.recipients.map (·, channel.id)
  | .listed channels => channels.flatMap fun channel => channel.recipients.map (·, channel.id)
  | .created _ user _ channel => [(user, channel.id)]
  | _ => []

/-- The channel an event names last for a user. -/
def Event.namedFor (user : UInt64) (e : Event) : Option UInt64 :=
  e.names.reverse.lookup user

/-- The channel that was last named for a user. -/
def lastNamed (user : UInt64) (log : List Event) : Option UInt64 :=
  EventLog.latest (Event.namedFor user) log

/-- `set_dm_channel`, one after the other. -/
def assignAll (channels : Std.ExtTreeMap UInt64 UInt64 compare) (pairs : List (UInt64 × UInt64)) :
    Std.ExtTreeMap UInt64 UInt64 compare :=
  pairs.foldl (fun channels pair => channels.insert pair.1 pair.2) channels

theorem getElem?_assignAll (pairs : List (UInt64 × UInt64)) (user : UInt64) :
    ∀ channels : Std.ExtTreeMap UInt64 UInt64 compare,
      (assignAll channels pairs)[user]? = (pairs.reverse.lookup user).or channels[user]? := by
  induction pairs with
  | nil => exact fun _ => rfl
  | cons pair rest ih =>
    intro channels
    obtain ⟨recipient, channel⟩ := pair
    rw [assignAll, List.foldl_cons, ← assignAll, ih, Std.ExtTreeMap.getElem?_insert,
      List.reverse_cons, List.lookup_append, Option.or_assoc, List.lookup_cons]
    by_cases h : recipient = user
    · simp [h]
    · simp [h, beq_false_of_ne (Ne.symm h)]

theorem setRecipients_eq (s : DirectMessages) (channel : Channel) :
    s.setRecipients channel =
      { s with dmChannels := assignAll s.dmChannels (channel.recipients.map (·, channel.id)) } := by
  have along : ∀ (recipients : List UInt64) (s : DirectMessages),
      recipients.foldl (fun s user => s.setDmChannel user channel.id) s =
        { s with dmChannels := assignAll s.dmChannels (recipients.map (·, channel.id)) } := by
    intro recipients
    induction recipients with
    | nil => exact fun _ => rfl
    | cons user rest ih => exact fun s => ih (s.setDmChannel user channel.id)
  exact along channel.recipients s

theorem announced_eq (s : DirectMessages) (channel : Channel) :
    s.announced channel =
      { s with
        dmChannels := assignAll s.dmChannels (Event.announced channel).names
        log := .announced channel :: s.log } :=
  setRecipients_eq _ channel

theorem listed_eq (s : DirectMessages) (order : List Channel) :
    s.listed order =
      { s with
        dmChannels := assignAll s.dmChannels (Event.listed order).names
        listing := false
        log := .listed order :: s.log } := by
  have along : ∀ (order : List Channel) (s : DirectMessages),
      order.foldl setRecipients s = { s with
        dmChannels := assignAll s.dmChannels
          (order.flatMap fun channel => channel.recipients.map (·, channel.id)) } := by
    intro order
    induction order with
    | nil => exact fun _ => rfl
    | cons channel rest ih =>
      intro s
      rw [List.foldl_cons, ih, setRecipients_eq]
      simp [assignAll, List.foldl_append]
  exact along order _

/-! ### What a step does -/

/-- The call an event belongs to. -/
def Event.call? : Event → Option Nat
  | .requested call .. | .creating call .. | .created call .. | .posted call .. | .caught call .. =>
      some call
  | .announced _ | .listed _ | .unlisted => none

/-- Everything a step can do. -/
inductive Stepped (s : DirectMessages) : DirectMessages → Prop where
  | learned (e : Event) (listing : Bool) (h : e.call? = none) : Stepped s
      { s with
        dmChannels := assignAll s.dmChannels e.names
        listing
        log := e :: s.log }
  | waiting (user : UInt64) (m : Message) : Stepped s
      { s with
        creations := s.creations.insert s.nextCall { user, message := m }
        nextCall := s.nextCall + 1
        log := .creating s.nextCall user :: .requested s.nextCall user m :: s.log }
  | sent (user : UInt64) (m : Message) (channel : UInt64) (known : channel ≠ 0)
      (h : s.dmChannels[user]? = some channel) : Stepped s
      { s with
        nextCall := s.nextCall + 1
        log := .posted s.nextCall user { m with channelId := channel } ::
          .requested s.nextCall user m :: s.log }
  | caught (call : Nat) (creation : Creation) (h : s.creations[call]? = some creation) : Stepped s
      { s with
        creations := s.creations.erase call
        log := .caught call creation.user :: s.log }
  | answered (call : Nat) (creation : Creation) (http : HttpRequestCompletion) (channel : Channel)
      (channels : Std.ExtTreeMap UInt64 UInt64 compare) (h : s.creations[call]? = some creation)
      (set : ∀ user, channels[user]? =
        if user = creation.user then some channel.id else s.dmChannels[user]?) : Stepped s
      { s with
        dmChannels := channels
        creations := s.creations.erase call
        log := .posted call creation.user { creation.message with channelId := channel.id } ::
          .created call creation.user http channel :: s.log }

variable {P}

/-- **Step inversion.** -/
theorem stepped {s s' : DirectMessages} {l : Label} (h : step P s l = some s') : Stepped s s' := by
  cases l with
  | announce known d =>
    simp only [step, Option.map_eq_some_iff] at h
    obtain ⟨channel, -, rfl⟩ := h
    rw [announced_eq]
    exact .learned (.announced channel) s.listing rfl
  | list rv order =>
    have unlisted : Stepped s ({ s with listing := false }.emit .unlisted) :=
      .learned .unlisted false rfl
    simp only [step] at h
    split at h
    · cases h
    · split at h
      · cases h
        exact unlisted
      · split at h
        · cases h
          exact unlisted
        · split at h
          · cases h
            rw [listed_eq]
            exact .learned (.listed order) false rfl
          · cases h
  | direct user m =>
    simp only [step, Option.some.injEq] at h
    subst h
    unfold directMessageCreate
    simp only
    split
    · exact .waiting user m
    · rename_i hknown
      have hchannel : s.dmChannels[user]? = some (s.getDmChannel user) := by
        have hset : s.getDmChannel user ≠ 0 := hknown
        unfold getDmChannel at hset ⊢
        cases hfind : s.dmChannels[user]? with
        | none => exact absurd (by rw [hfind]; rfl) hset
        | some channel => rfl
      exact .sent user m _ hknown hchannel
  | created call rv =>
    simp only [step, Option.map_eq_some_iff] at h
    obtain ⟨creation, hcreation, rfl⟩ := h
    unfold created
    simp only
    split
    · exact .caught call creation hcreation
    · rename_i channel hchannel
      split
      all_goals
        refine .answered call creation _ channel _ hcreation fun user => ?_
        by_cases huser : user = creation.user
        · simp [setDmChannel, emit, huser]
        · simp [setDmChannel, emit, Std.ExtTreeMap.getElem?_insert, huser, Ne.symm huser]

/-! ### Where a message goes -/

/-- A posted message is the one requested, in the channel that was named last for its user;
that is none only when the creation of the channel has just been answered so. -/
def Addressed (older : List Event) (call : Nat) (user : UInt64) (m : Message) : Prop :=
  lastNamed user older = some m.channelId ∧
    (m.channelId = 0 → ∃ http channel rest, older = .created call user http channel :: rest) ∧
    ∃ requested, .requested call user requested ∈ older ∧
      m = { requested with channelId := m.channelId }

structure Tracked (s : DirectMessages) : Prop where
  channels : ∀ user, s.dmChannels[user]? = lastNamed user s.log
  creations : ∀ call creation, s.creations[call]? = some creation →
    .requested call creation.user creation.message ∈ s.log
  posted : ∀ newer call user m older, s.log = newer ++ .posted call user m :: older →
    Addressed older call user m

theorem lastNamed_cons (user : UInt64) (e : Event) (log : List Event) :
    lastNamed user (e :: log) = (e.namedFor user).or (lastNamed user log) := by
  unfold lastNamed EventLog.latest
  rw [List.findSome?_cons]
  cases e.namedFor user <;> rfl

/-- A log whose newest event is no posted message has its messages further back. -/
theorem posted_of_cons {e : Event} {log : List Event}
    {Q : List Event → Nat → UInt64 → Message → Prop}
    (h : ∀ newer call user m older, log = newer ++ .posted call user m :: older →
      Q older call user m)
    (new : ∀ call user m, e = .posted call user m → Q log call user m) :
    ∀ newer call user m older, e :: log = newer ++ .posted call user m :: older →
      Q older call user m := by
  intro newer call user m older hlog
  cases newer with
  | nil =>
    obtain ⟨he, rfl⟩ := List.cons.inj hlog
    exact new call user m he
  | cons e' newer => exact h newer call user m older (List.cons.inj hlog).2

theorem tracked_preserved : (system P).Preserved Tracked := by
  intro s l s' hs hstep
  cases stepped hstep with
  | learned e listing hcall =>
    constructor
    · intro user
      rw [getElem?_assignAll, hs.channels, lastNamed_cons]
      rfl
    · intro call creation h
      exact List.mem_cons_of_mem _ (hs.creations call creation h)
    · refine posted_of_cons hs.posted ?_
      rintro call user m rfl
      cases hcall
  | waiting user m =>
    constructor
    · intro u
      rw [lastNamed_cons, lastNamed_cons]
      exact hs.channels u
    · intro call creation h
      rcases eq_or_ne call s.nextCall with rfl | hne
      · rw [Std.ExtTreeMap.getElem?_insert_self, Option.some.injEq] at h
        subst h
        simp
      · simp only [Std.ExtTreeMap.getElem?_insert, Nat.compare_eq_eq, Ne.symm hne, if_false] at h
        exact List.mem_cons_of_mem _ (List.mem_cons_of_mem _ (hs.creations call creation h))
    · exact posted_of_cons (posted_of_cons hs.posted nofun) nofun
  | sent user m channel known hchannel =>
    constructor
    · intro u
      rw [lastNamed_cons, lastNamed_cons]
      exact hs.channels u
    · intro call creation h
      exact List.mem_cons_of_mem _ (List.mem_cons_of_mem _ (hs.creations call creation h))
    · refine posted_of_cons (posted_of_cons hs.posted nofun) ?_
      rintro _ _ _ ⟨⟩
      refine ⟨?_, fun hzero => absurd hzero known, m, List.mem_cons_self, rfl⟩
      rw [lastNamed_cons, ← hs.channels, hchannel]
      rfl
  | caught call creation h =>
    constructor
    · intro u
      rw [lastNamed_cons]
      exact hs.channels u
    · intro c creation' h'
      simp only [Std.ExtTreeMap.getElem?_erase] at h'
      split at h'
      · cases h'
      · exact List.mem_cons_of_mem _ (hs.creations c creation' h')
    · exact posted_of_cons hs.posted nofun
  | answered call creation http channel channels h set =>
    have hnamed : ∀ u, lastNamed u (.created call creation.user http channel :: s.log) =
        if u = creation.user then some channel.id else s.dmChannels[u]? := by
      intro u
      rw [lastNamed_cons, ← hs.channels]
      by_cases hu : u = creation.user
      · simp [Event.namedFor, Event.names, hu]
      · simp [Event.namedFor, Event.names, hu, List.lookup_cons, beq_false_of_ne hu]
    constructor
    · intro u
      rw [lastNamed_cons, hnamed, set]
      rfl
    · intro c creation' h'
      simp only [Std.ExtTreeMap.getElem?_erase] at h'
      split at h'
      · cases h'
      · exact List.mem_cons_of_mem _ (List.mem_cons_of_mem _ (hs.creations c creation' h'))
    · refine posted_of_cons (posted_of_cons hs.posted nofun) ?_
      rintro _ _ _ ⟨⟩
      refine ⟨?_, fun _ => ⟨http, channel, s.log, rfl⟩, creation.message,
        List.mem_cons_of_mem _ (hs.creations call creation h), rfl⟩
      rw [hnamed, if_pos rfl]

theorem tracked {s : DirectMessages} (hs : (system P).Reachable s) : Tracked s := by
  apply hs.invariant _ tracked_preserved
  constructor
  · intro user
    rfl
  · intro call creation h
    cases h
  · intro newer call user m older h
    cases newer <;> cases h

/-- **A message goes to the channel that was named last for its recipient**, with nothing else
of it changed; it goes to no channel only when the creation of one has just been answered
without naming one. -/
theorem delivered_last_named {s : DirectMessages} (hs : (system P).Reachable s)
    {newer older : List Event} {call : Nat} {user : UInt64} {m : Message}
    (h : s.log = newer ++ .posted call user m :: older) : Addressed older call user m :=
  (tracked hs).posted newer call user m older h

/-- A platform that knows the body of one channel. -/
def channelPlatform : Platform :=
  .ofTable [("channel", .object [("id", .string "77")])] []

/-- Two messages to one user; the channel of the first is created, that of the second is not,
which makes the cluster forget the first. -/
def channelForgotten : DirectMessages :=
  ((system channelPlatform).run {}
    [.direct 9 { content := "first" }, .direct 9 { content := "second" },
      .created 0 { status := 200, body := "channel" }, .created 1 { status := 429 }]).get
    (by decide +kernel)

theorem delivered_last_named_channelForgotten :
    channelForgotten.getDmChannel 9 = 0 ∧
      Addressed channelForgotten.log.tail 1 9 { content := "second" } :=
  ⟨by decide +kernel, @delivered_last_named channelPlatform channelForgotten
    ⟨_, (Option.some_get _).symm⟩ [] _ 1 9 _ rfl⟩

/-! ### How often a message is posted -/

def Event.requests (call : Nat) : Event → Bool
  | .requested c .. => c = call
  | _ => false

/-- The message of a call is posted, or lost with the answer of its creation. -/
def Event.settles (call : Nat) : Event → Bool
  | .posted c .. | .caught c .. => c = call
  | _ => false

/-- One for a call that was made. -/
def made (nextCall call : Nat) : Nat :=
  if call < nextCall then 1 else 0

/-- One for a call that waits for its channel. -/
def waiting (creations : Std.ExtTreeMap Nat Creation compare) (call : Nat) : Nat :=
  if call ∈ creations then 1 else 0

theorem made_succ (nextCall call : Nat) :
    made (nextCall + 1) call = made nextCall call + if nextCall = call then 1 else 0 := by
  unfold made
  split <;> split <;> split <;> omega

theorem waiting_insert {creations : Std.ExtTreeMap Nat Creation compare} {call : Nat}
    (fresh : call ∉ creations) (creation : Creation) (c : Nat) :
    waiting (creations.insert call creation) c =
      waiting creations c + if call = c then 1 else 0 := by
  unfold waiting
  by_cases h : call = c
  · subst h
    simp [fresh]
  · simp [Std.ExtTreeMap.mem_insert, h]

theorem waiting_erase {creations : Std.ExtTreeMap Nat Creation compare} {call : Nat}
    (h : call ∈ creations) (c : Nat) :
    waiting (creations.erase call) c + (if call = c then 1 else 0) = waiting creations c := by
  unfold waiting
  by_cases hc : call = c
  · subst hc
    simp [h]
  · simp [Std.ExtTreeMap.mem_erase, hc]

structure Counted (s : DirectMessages) : Prop where
  known : ∀ call ∈ s.creations, call < s.nextCall
  requests : ∀ call, s.log.countP (Event.requests call) = made s.nextCall call
  settles : ∀ call,
    s.log.countP (Event.settles call) + waiting s.creations call = made s.nextCall call

theorem counted_preserved : (system P).Preserved Counted := by
  intro s l s' hs hstep
  have erased : ∀ {call creation}, s.creations[call]? = some creation →
      call ∈ s.creations := fun h => Std.ExtTreeMap.mem_iff_isSome_getElem?.mpr (by simp [h])
  cases stepped hstep with
  | learned e listing hcall =>
    have hrequests : ∀ call, e.requests call = false := by
      intro call
      cases e <;> first | rfl | cases hcall
    have hsettles : ∀ call, e.settles call = false := by
      intro call
      cases e <;> first | rfl | cases hcall
    refine ⟨hs.known, fun call => ?_, fun call => ?_⟩
    · rw [List.countP_cons_of_neg (by simp [hrequests])]
      exact hs.requests call
    · rw [List.countP_cons_of_neg (by simp [hsettles])]
      exact hs.settles call
  | waiting user m =>
    have fresh : s.nextCall ∉ s.creations := fun h => Nat.lt_irrefl _ (hs.known _ h)
    refine ⟨fun call h => ?_, fun call => ?_, fun call => ?_⟩
    · rcases Std.ExtTreeMap.mem_insert.mp h with h | h
      · rw [← Nat.compare_eq_eq.mp h]
        exact Nat.lt_succ_self _
      · exact Nat.lt_succ_of_lt (hs.known call h)
    · have := hs.requests call
      simp only [List.countP_cons, Event.requests, made_succ, decide_eq_true_eq]
      simp only [Bool.false_eq_true, if_false]
      omega
    · have := hs.settles call
      simp only [List.countP_cons, Event.settles, made_succ, waiting_insert fresh]
      simp only [Bool.false_eq_true, if_false]
      omega
  | sent user m channel known hchannel =>
    refine ⟨fun call h => Nat.lt_succ_of_lt (hs.known call h), fun call => ?_, fun call => ?_⟩
    · have := hs.requests call
      simp only [List.countP_cons, Event.requests, made_succ, decide_eq_true_eq]
      simp only [Bool.false_eq_true, if_false]
      omega
    · have := hs.settles call
      simp only [List.countP_cons, Event.settles, made_succ, decide_eq_true_eq]
      simp only [Bool.false_eq_true, if_false]
      omega
  | caught call creation h =>
    refine ⟨fun c hc => hs.known c (Std.ExtTreeMap.mem_of_mem_erase hc), fun c => ?_, fun c => ?_⟩
    · exact hs.requests c
    · have := hs.settles c
      rw [← waiting_erase (erased h)] at this
      simp only [List.countP_cons, Event.settles, decide_eq_true_eq]
      omega
  | answered call creation http channel channels h set =>
    refine ⟨fun c hc => hs.known c (Std.ExtTreeMap.mem_of_mem_erase hc), fun c => ?_, fun c => ?_⟩
    · exact hs.requests c
    · have := hs.settles c
      rw [← waiting_erase (erased h)] at this
      simp only [List.countP_cons, Event.settles, decide_eq_true_eq]
      simp only [Bool.false_eq_true, if_false]
      omega

theorem counted {s : DirectMessages} (hs : (system P).Reachable s) : Counted s := by
  apply hs.invariant _ counted_preserved
  constructor
  · intro call h
    exact absurd h Std.ExtTreeMap.not_mem_empty
  · exact fun _ => rfl
  · intro call
    rfl

/-- **Each message is posted once.** A call is made once, and it waits for its channel, or its
message has been posted once, or was lost with an answer that could not be read. -/
theorem posted_once {s : DirectMessages} (hs : (system P).Reachable s) (call : Nat) :
    s.log.countP (Event.requests call) = made s.nextCall call ∧
      s.log.countP (Event.settles call) + waiting s.creations call = made s.nextCall call :=
  ⟨(counted hs).requests call, (counted hs).settles call⟩

theorem posted_once_channelForgotten :
    channelForgotten.log.countP (Event.settles 1) + waiting channelForgotten.creations 1 = 1 :=
  (posted_once (P := channelPlatform) (s := channelForgotten) ⟨_, (Option.some_get _).symm⟩ 1).2

/-! ### Numbers of calls -/

theorem made_le (nextCall n : Nat) : made nextCall n ≤ 1 := by
  unfold made
  split <;> omega

theorem exists_requested {s : DirectMessages} (hs : (system P).Reachable s) {n : Nat}
    {user : UInt64} {m : Message} (h : .posted n user m ∈ s.log) :
    ∃ requested, .requested n user requested ∈ s.log ∧
      m = { requested with channelId := m.channelId } := by
  obtain ⟨newer, older, hlog⟩ := List.append_of_mem h
  obtain ⟨-, -, requested, hmem, hm⟩ := (tracked hs).posted newer n user m older hlog
  refine ⟨requested, ?_, hm⟩
  rw [hlog]
  exact List.mem_append_right _ (List.mem_cons_of_mem _ hmem)

/-- What was posted under a number is what was requested under it. -/
theorem requested_of_posted {s : DirectMessages} (hs : (system P).Reachable s)
    {n : Nat} {user user' : UInt64} {m m' : Message} (h : .posted n user m ∈ s.log)
    (h' : .requested n user' m' ∈ s.log) :
    user = user' ∧ m = { m' with channelId := m.channelId } := by
  obtain ⟨requested, hmem, hm⟩ := exists_requested hs h
  have heq : Event.requested n user requested = .requested n user' m' := by
    by_contra hne
    have htwo := EventLog.two_le_countP (p := Event.requests n) hne hmem h'
      (by simp [Event.requests]) (by simp [Event.requests])
    rw [(counted hs).requests n] at htwo
    have := made_le s.nextCall n
    omega
  cases heq
  exact ⟨rfl, hm⟩

end DirectMessages

end Dpp
