import CordactylBot.Deliveries.System

/-!
What Discord gets.

`Linked` ties the direct messages of the cluster to the elements they were sent for.

* `posted_elements` — what is posted is an element of an acknowledgement, to its recipient,
  each at most once, or the probe of an appeal.
* `reported_posted` — what a report calls successfully sent has been posted.
* `lost_forever` — a call whose channel could not be read waits for ever.
-/

open Dpp

namespace Deliveries

variable {P : Platform}

/-! ### Who sent what -/

/-- The direct message is the probe of an appeal, or an element with its recipient. -/
def Sent (P : Platform) (d : Deliveries) (n : Nat) (user : UInt64) (m : Message) : Prop :=
  (d.senders[n]? = some .appeal ∧ m = {}) ∨
    ∃ call position qm, d.senders[n]? = some (.element call position) ∧
      Messages.Reads P d.world call position qm ∧ user = qm.recipient ∧ m = { embeds := [qm.embed] }

/-- A message of the element was posted. -/
def Posted (d : Deliveries) (call position : Nat) (m : QueuedMessage) : Prop :=
  ∃ n channel, d.senders[n]? = some (.element call position) ∧
    .posted n m.recipient { embeds := [m.embed], channelId := channel } ∈ d.cluster.log

/-- The direct message `n` is the one the suspended call waits for. -/
structure Waiting (d : Deliveries) (call : Nat) (frame : Frame) (n : Nat) : Prop where
  sending : d.sending[call]? = some n
  sender : d.senders[n]? = some (.element call frame.rest.length)
  requested : .requested n frame.message.recipient { embeds := [frame.message.embed] } ∈ d.cluster.log

structure Linked (P : Platform) (d : Deliveries) : Prop where
  bound : ∀ (n : Nat) sender, d.senders[n]? = some sender → n < d.cluster.nextCall
  issued : ∀ (n : Nat) call position, d.senders[n]? = some (.element call position) →
    ∃ id, .directMessage call position id ∈ d.world.log
  unique : ∀ (n n' : Nat) call position, d.senders[n]? = some (.element call position) →
    d.senders[n']? = some (.element call position) → n = n'
  requested : ∀ n user m, .requested n user m ∈ d.cluster.log → Sent P d n user m
  waiting : ∀ (call : Nat) frame, d.world.calls[call]? = some frame →
    frame.awaiting = .directMessage → ∃ n, Waiting d call frame n
  succeeded : ∀ call position m, .sent call position m ∈ d.world.log → m.error = none →
    Posted d call position m

/-- The message processing goes on, the cluster stands still. -/
theorem Linked.goOn {d : Deliveries} {world : World} {new : List Event} (h : Linked P d)
    (hlog : world.log = new ++ d.world.log)
    (frames : ∀ (call : Nat) frame, world.calls[call]? = some frame →
      frame.awaiting = .directMessage → d.world.calls[call]? = some frame)
    (sent : ∀ call position m, .sent call position m ∈ new → m.error = none →
      Posted d call position m) : Linked P { d with world } := by
  refine ⟨h.bound, fun n call position hn => ?_, h.unique, fun n user m hmem => ?_,
    fun call frame hf hawait => ?_, fun call position m hmem hnone => ?_⟩
  · obtain ⟨id, hid⟩ := h.issued n call position hn
    exact ⟨id, hlog ▸ List.mem_append_right _ hid⟩
  · rcases h.requested n user m hmem with happeal | ⟨call, position, qm, hn, hreads, hm⟩
    · exact .inl happeal
    · exact .inr ⟨call, position, qm, hn, hreads.extend hlog, hm⟩
  · obtain ⟨n, hn⟩ := h.waiting call frame (frames call frame hf hawait) hawait
    exact ⟨n, hn.sending, hn.sender, hn.requested⟩
  · rcases List.mem_append.mp (hlog ▸ hmem) with he | he
    · exact sent call position m he hnone
    · exact h.succeeded call position m he hnone

/-- The senders after one more direct message. -/
theorem senders_send {d : Deliveries} (h : Linked P d) (sender : Sender) (user : UInt64)
    (m : Message) {n : Nat} {s : Sender} :
    (d.send sender user m).senders[n]? = some s ↔
      n = d.cluster.nextCall ∧ s = sender ∨ d.senders[n]? = some s := by
  simp only [send, Std.ExtTreeMap.getElem?_insert, Nat.compare_eq_eq]
  split
  · rename_i heq
    subst heq
    rw [Option.some.injEq, eq_comm]
    refine ⟨fun hs => .inl ⟨rfl, hs⟩, fun hor => hor.elim And.right fun hold => ?_⟩
    exact absurd (h.bound _ _ hold) (Nat.lt_irrefl _)
  · rename_i hne
    exact ⟨.inr, fun hor => hor.resolve_left fun hand => hne hand.1.symm⟩

theorem Linked.bound_send {d : Deliveries} (h : Linked P d) (sender : Sender) (user : UInt64)
    (m : Message) {n : Nat} {s : Sender} (hn : (d.send sender user m).senders[n]? = some s) :
    n < (d.send sender user m).cluster.nextCall := by
  have hnext : (d.send sender user m).cluster.nextCall = d.cluster.nextCall + 1 :=
    (directMessageCreate_log d.cluster user m).1
  rw [hnext]
  rcases (senders_send h sender user m).mp hn with ⟨rfl, -⟩ | hold
  · exact Nat.lt_succ_self _
  · exact Nat.lt_succ_of_lt (h.bound n s hold)

theorem mem_send {d : Deliveries} {e : DirectMessages.Event} (h : e ∈ d.cluster.log)
    (sender : Sender) (user : UInt64) (m : Message) : e ∈ (d.send sender user m).cluster.log := by
  obtain ⟨-, new, hlog, -⟩ := directMessageCreate_log d.cluster user m
  have hlog : (d.send sender user m).cluster.log = _ := hlog
  rw [hlog]
  exact List.mem_append_right _ (List.mem_cons_of_mem _ h)

theorem Waiting.send {d : Deliveries} {call n : Nat} {frame : Frame} (h : Linked P d)
    (hn : Waiting d call frame n) (sender : Sender) (user : UInt64) (m : Message) :
    Waiting (d.send sender user m) call frame n :=
  ⟨hn.sending, (senders_send h sender user m).mpr (.inr hn.sender),
    mem_send hn.requested sender user m⟩

theorem Posted.send {d : Deliveries} {call position : Nat} {qm : QueuedMessage} (h : Linked P d)
    (hposted : Posted d call position qm) (sender : Sender) (user : UInt64) (m : Message) :
    Posted (d.send sender user m) call position qm := by
  obtain ⟨n, channel, hn, hmem⟩ := hposted
  exact ⟨n, channel, (senders_send h sender user m).mpr (.inr hn), mem_send hmem sender user m⟩

/-- The direct messages after one more. -/
theorem Linked.requested_send {d : Deliveries} (h : Linked P d) {sender : Sender} {user : UInt64}
    {m : Message} (new : Sent P (d.send sender user m) d.cluster.nextCall user m) :
    ∀ n u m', .requested n u m' ∈ (d.send sender user m).cluster.log →
      Sent P (d.send sender user m) n u m' := by
  intro n u m' hmem
  obtain ⟨-, events, hlog, hquiet⟩ := directMessageCreate_log d.cluster user m
  rcases List.mem_append.mp (hlog ▸ hmem) with he | he
  · exact absurd rfl (hquiet _ he n u m')
  · rcases List.mem_cons.mp he with he | he
    · cases he
      exact new
    · rcases h.requested n u m' he with ⟨hn, hm⟩ | ⟨call, position, qm, hn, hreads⟩
      · exact .inl ⟨(senders_send h sender user m).mpr (.inr hn), hm⟩
      · exact .inr ⟨call, position, qm, (senders_send h sender user m).mpr (.inr hn), hreads⟩

theorem linked_issued {d : Deliveries} (side : Sides P d) (h : Linked P d) {call : Nat}
    {frame : Frame} (now : Int) (hf : d.world.calls[call]? = some frame)
    (hawait : frame.awaiting = .memberLookup) :
    Linked P
      { d.send (.element call frame.rest.length) frame.message.recipient
          { embeds := [frame.message.embed] } with
        world := d.world.awaitDirectMessage call { frame.message with processedAt := now }
          frame.rest
        sending := d.sending.insert call d.cluster.nextCall } := by
  have hs := (Messages.positioned side.world).suspended call frame hf
  obtain ⟨-, qm, hreads, hfixed⟩ := (Messages.carried side.world).frames call frame hf
  obtain ⟨-, hrecipient, hembed⟩ := QueuedMessage.addressed_of_fixed hfixed
  obtain ⟨-, new, hlog, -⟩ := directMessageCreate_log d.cluster frame.message.recipient
    { embeds := [frame.message.embed] }
  have hworld : ∀ m, (d.world.awaitDirectMessage call m frame.rest).log =
      [.directMessage call frame.rest.length m.id] ++ d.world.log := fun _ => rfl
  have senders := fun n s => @senders_send P d h (.element call frame.rest.length)
    frame.message.recipient { embeds := [frame.message.embed] } n s
  -- the element had no direct message: its send was waiting for the lookup
  have fresh : ∀ n : Nat, d.senders[n]? ≠ some (.element call frame.rest.length) := by
    intro n hn
    obtain ⟨id, hid⟩ := h.issued n call frame.rest.length hn
    exact hs.fresh hawait id hid
  refine ⟨fun n s hn => ?_, fun n c p hn => ?_, fun n n' c p hn hn' => ?_,
    fun n user m hmem => ?_, fun c f hc hc' => ?_, fun c p m hmem hnone => ?_⟩
  · exact h.bound_send _ _ _ hn
  · rcases (senders n _).mp hn with ⟨-, heq⟩ | hold
    · cases heq
      exact ⟨_, List.mem_cons_self⟩
    · obtain ⟨id, hid⟩ := h.issued n c p hold
      exact ⟨id, List.mem_cons_of_mem _ hid⟩
  · rcases (senders n _).mp hn with ⟨rfl, heq⟩ | hold
    · cases heq
      rcases (senders n' _).mp hn' with ⟨rfl, -⟩ | hold'
      · rfl
      · exact absurd hold' (fresh n')
    · rcases (senders n' _).mp hn' with ⟨rfl, heq⟩ | hold'
      · cases heq
        exact absurd hold (fresh n)
      · exact h.unique n n' c p hold hold'
  · have hsent : Sent P (d.send (.element call frame.rest.length) frame.message.recipient
        { embeds := [frame.message.embed] }) d.cluster.nextCall frame.message.recipient
        { embeds := [frame.message.embed] } :=
      .inr ⟨call, frame.rest.length, qm, (senders _ _).mpr (.inl ⟨rfl, rfl⟩), hreads,
        hrecipient, by rw [hembed]⟩
    rcases h.requested_send hsent n user m hmem with happeal | ⟨c, p, q, hn, hq, hm⟩
    · exact .inl happeal
    · exact .inr ⟨c, p, q, hn, hq.extend (hworld _), hm⟩
  · rw [World.awaitDirectMessage, Std.ExtTreeMap.getElem?_insert] at hc
    split at hc
    · rename_i heq
      rw [Std.LawfulEqCmp.compare_eq_iff_eq] at heq
      subst heq
      cases hc
      have hmem : .requested d.cluster.nextCall frame.message.recipient
          { embeds := [frame.message.embed] } ∈ (d.cluster.directMessageCreate
            frame.message.recipient { embeds := [frame.message.embed] }).log := by
        rw [hlog]
        exact List.mem_append_right _ List.mem_cons_self
      exact ⟨d.cluster.nextCall, Std.ExtTreeMap.getElem?_insert_self,
        (senders _ _).mpr (.inl ⟨rfl, rfl⟩), hmem⟩
    · rename_i hne
      obtain ⟨n, hn⟩ := h.waiting c f hc hc'
      have hkept := hn.send h (.element call frame.rest.length) frame.message.recipient
        { embeds := [frame.message.embed] }
      refine ⟨n, ?_, hkept.sender, hkept.requested⟩
      rw [Std.ExtTreeMap.getElem?_insert, if_neg hne]
      exact hn.sending
  · rcases List.mem_cons.mp hmem with he | he
    · cases he
    · exact (h.succeeded c p m he hnone).send h _ _ _

theorem linked_probed {d : Deliveries} (h : Linked P d) (user : UInt64) :
    Linked P (d.send .appeal user {}) := by
  have senders := fun n s => @senders_send P d h .appeal user {} n s
  have element : ∀ (n : Nat) c p, (d.send .appeal user {}).senders[n]? = some (.element c p) →
      d.senders[n]? = some (.element c p) := by
    intro n c p hn
    rcases (senders n _).mp hn with ⟨-, heq⟩ | hold
    · cases heq
    · exact hold
  refine ⟨fun n s hn => h.bound_send _ _ _ hn, fun n c p hn => h.issued n c p (element n c p hn),
    fun n n' c p hn hn' => h.unique n n' c p (element n c p hn) (element n' c p hn'),
    h.requested_send (.inl ⟨(senders _ _).mpr (.inl ⟨rfl, rfl⟩), rfl⟩),
    fun c f hc hawait => ?_, fun c p m hmem hnone => ?_⟩
  · obtain ⟨n, hn⟩ := h.waiting c f hc hawait
    exact ⟨n, hn.send h .appeal user {}⟩
  · exact (h.succeeded c p m hmem hnone).send h .appeal user {}

theorem linked_answered {d : Deliveries} {cluster : DirectMessages} (h : Linked P d)
    (answers : Answers d.cluster cluster) : Linked P { d with cluster } := by
  obtain ⟨hnext, new, hlog, hnew⟩ := answers
  have kept : ∀ {e}, e ∈ d.cluster.log → e ∈ cluster.log := fun he =>
    hlog ▸ List.mem_append_right _ he
  refine ⟨fun n s hn => hnext ▸ h.bound n s hn, h.issued, h.unique, fun n user m hmem => ?_,
    fun c f hc hawait => ?_, fun c p m hmem hnone => ?_⟩
  · rcases List.mem_append.mp (hlog ▸ hmem) with he | he
    · exact absurd rfl (hnew _ he n user m)
    · exact h.requested n user m he
  · obtain ⟨n, hn⟩ := h.waiting c f hc hawait
    exact ⟨n, hn.sending, hn.sender, kept hn.requested⟩
  · obtain ⟨n, channel, hn, hposted⟩ := h.succeeded c p m hmem hnone
    exact ⟨n, channel, hn, kept hposted⟩

theorem linked_preserved : (system P).Preserved fun d => Sides P d ∧ Linked P d := by
  rintro d l d' ⟨side, h⟩ hstep
  refine ⟨sides_preserved d l d' side hstep, ?_⟩
  have unawaited : ∀ {frame : Frame}, frame.awaiting = .memberLookup →
      frame.awaiting ≠ .directMessage := by
    intro frame hlookup hdirect
    rw [hlookup] at hdirect
    cases hdirect
  cases stepped hstep with
  | quiet world hquiet =>
    obtain ⟨⟨new, hlog, -, hsents⟩, hframes⟩ := hquiet
    refine h.goOn hlog (fun call frame hf hawait => ?_) fun call position m hmem => ?_
    · exact (hframes call frame hf).resolve_right fun hlookup => unawaited hlookup hawait
    · exact absurd rfl (hsents _ hmem call position m)
  | issued call frame now hf hawait => exact linked_issued side h now hf hawait
  | sent call frame m world hf hfixed hposted hquiet =>
    obtain ⟨⟨new, hlog, -, hsents⟩, hframes⟩ := hquiet
    obtain ⟨stored, hstored, hall⟩ := Messages.store_log (d.world.sent call frame.rest.length m) m
    have hsent : (d.world.sent call frame.rest.length m).log =
        .sent call frame.rest.length m :: d.world.log := rfl
    have hlog' : world.log =
        (new ++ (stored ++ [.sent call frame.rest.length m])) ++ d.world.log := by
      rw [hlog, hstored, hsent]
      simp
    refine h.goOn hlog' (fun c f hc hawait => ?_) fun c p m' hmem hnone => ?_
    · have hold := (hframes c f hc).resolve_right fun hlookup => unawaited hlookup hawait
      simp only [World.store, World.sent, Std.ExtTreeMap.getElem?_erase] at hold
      split at hold
      · cases hold
      · exact hold
    · rcases List.mem_append.mp hmem with he | he
      · exact absurd rfl (hsents _ he c p m')
      · rcases List.mem_append.mp he with he | he
        · exact absurd (hall _ he) (by simp)
        · cases List.mem_singleton.mp he
          obtain ⟨hawait, n, user, message, hn, hmem⟩ := hposted hnone
          obtain ⟨n', hn'⟩ := h.waiting call frame hf hawait
          rw [hn'.sending, Option.some.injEq] at hn
          subst hn
          obtain ⟨rfl, hmessage⟩ := DirectMessages.requested_of_posted side.cluster hmem hn'.requested
          obtain ⟨-, hrecipient, hembed⟩ := QueuedMessage.addressed_of_fixed hfixed
          refine ⟨n', message.channelId, hn'.sender, ?_⟩
          rw [hrecipient, hembed]
          rw [hmessage] at hmem
          exact hmem
  | probed user => exact linked_probed h user
  | answered cluster answers => exact linked_answered h answers

theorem linked {d : Deliveries} (hd : (system P).Reachable d) : Linked P d := by
  refine (hd.invariant (P := fun d => Sides P d ∧ Linked P d) ⟨⟨⟨[], rfl⟩, ⟨[], rfl⟩⟩, ?_⟩
    linked_preserved).2
  refine ⟨fun n s hn => ?_, fun n c p hn => ?_, fun n n' c p hn => ?_, fun n user m hmem => ?_,
    fun c f hc => ?_, fun c p m hmem => ?_⟩
  all_goals first
    | simp [system] at hn
    | simp [system] at hc
    | cases hmem

/-! ### What Discord gets -/

/-- The element a message was posted for. -/
def postedElement (d : Deliveries) : DirectMessages.Event → Option (Nat × Nat)
  | .posted n .. =>
      match d.senders[n]? with
      | some (.element call position) => some (call, position)
      | _ => none
  | _ => none

theorem postedElement_eq_some {d : Deliveries} {e : DirectMessages.Event} {call position : Nat} :
    d.postedElement e = some (call, position) ↔
      ∃ n user m, e = .posted n user m ∧ d.senders[n]? = some (.element call position) := by
  constructor
  · intro h
    cases e with
    | posted n user m =>
      refine ⟨n, user, m, rfl, ?_⟩
      simp only [postedElement] at h
      split at h
      · rename_i c p hsender
        cases h
        exact hsender
      · cases h
    | _ => cases h
  · rintro ⟨n, user, m, rfl, hsender⟩
    simp only [postedElement, hsender]

/-- No direct message is posted twice. -/
theorem posted_nodup {d : Deliveries} (side : Sides P d) (h : Linked P d) :
    (d.cluster.log.filterMap d.postedElement).Nodup := by
  refine (List.pairwise_filterMap).mpr (List.pairwise_iff_forall_sublist.mpr ?_)
  rintro e e' hsublist ⟨call, position⟩ he element' he' rfl
  obtain ⟨n, user, m, rfl, hn⟩ := postedElement_eq_some.mp he
  obtain ⟨n', user', m', rfl, hn'⟩ := postedElement_eq_some.mp he'
  obtain rfl := h.unique n n' call position hn hn'
  -- two posts of one number
  have htwo := hsublist.countP_le (p := DirectMessages.Event.settles n)
  have hcount := (DirectMessages.counted side.cluster).settles n
  have hmade := DirectMessages.made_le d.cluster.nextCall n
  simp only [List.countP_cons, List.countP_nil, DirectMessages.Event.settles, decide_true,
    if_true] at htwo
  omega

/-- **What Discord gets**: each posted message is an element an acknowledgement delivered, with
its embed and nothing else, for its recipient, no two of one element, or it is the empty probe
of an appeal. -/
theorem posted_elements {d : Deliveries} (hd : (system P).Reachable d) :
    (d.cluster.log.filterMap d.postedElement).Nodup ∧
      ∀ n user m, .posted n user m ∈ d.cluster.log →
        (d.senders[n]? = some .appeal ∧ m = { channelId := m.channelId }) ∨
          ∃ call position qm, d.postedElement (.posted n user m) = some (call, position) ∧
            Messages.Reads P d.world call position qm ∧ user = qm.recipient ∧
            m = { embeds := [qm.embed], channelId := m.channelId } := by
  have side := sides hd
  have h := linked hd
  refine ⟨posted_nodup side h, fun n user m hmem => ?_⟩
  obtain ⟨requested, hrequested, hm⟩ := DirectMessages.exists_requested side.cluster hmem
  rcases h.requested n user requested hrequested with ⟨hn, rfl⟩ |
    ⟨call, position, qm, hn, hreads, huser, rfl⟩
  · exact .inl ⟨hn, hm⟩
  · exact .inr ⟨call, position, qm, postedElement_eq_some.mpr ⟨n, user, m, rfl, hn⟩, hreads,
      huser, hm⟩

/-- **What is reported as sent was posted**: it is an element with this id, and a message with
its embed was posted for its recipient. Whether Discord took it is another matter. -/
theorem reported_posted {d : Deliveries} (hd : (system P).Reachable d) {call n : Nat}
    {entries : List QueuedMessage} (h : .reported call n entries ∈ d.world.log)
    {m : QueuedMessage} (hm : m ∈ entries) (success : m.error = none) :
    ∃ c position qm k channel, Messages.Reads P d.world c position qm ∧
      qm.id = m.id ∧ qm.recipient = m.recipient ∧ qm.embed = m.embed ∧
      .posted k m.recipient { embeds := [m.embed], channelId := channel } ∈ d.cluster.log ∧
      d.senders[k]? = some (.element c position) := by
  have carried := Messages.carried (sides hd).world
  obtain ⟨c, position, m', hsent, hfixed, houtcome⟩ := carried.reported call n entries h m hm
  obtain ⟨qm, hreads, hread⟩ := carried.sent c position m' hsent
  have herror : m'.error = none := by
    have := congrArg QueuedMessage.Outcome.error houtcome
    exact this.trans success
  obtain ⟨k, channel, hk, hposted⟩ := (linked hd).succeeded c position m' hsent herror
  obtain ⟨hid, hrecipient, hembed⟩ := QueuedMessage.addressed_of_fixed hfixed
  obtain ⟨hid', hrecipient', hembed'⟩ := QueuedMessage.addressed_of_fixed hread
  rw [hrecipient, hembed] at hposted
  exact ⟨c, position, qm, k, channel, hreads, hid'.symm.trans hid, hrecipient'.symm.trans hrecipient,
    hembed'.symm.trans hembed, hposted, hk⟩

/-- A platform that reads the bodies of the sample runs; `odd` is no channel. -/
def deliveryPlatform : Platform :=
  .ofTable [("\x7b\x7d", .object []), ("channel", .object [("id", .string "77")]),
    ("odd", .object [("nsfw", .string "no")])] []

/-- The channel of the direct message `n` is created and answered with this body. -/
def channelAnswered (n : Nat) (body : String) : Input :=
  .cluster (.created n { status := 200, body })

/-- An element is listed, its member is found, and it is posted; meanwhile an appeal probes the
recipient. -/
def sampleDelivery : Deliveries :=
  ((system deliveryPlatform).run {}
    [.messages (Messages.listMessage 7 1), .messages (Messages.completeWith 0 200 2), .probe 9,
      channelAnswered 0 "channel", channelAnswered 1 "channel",
      .messages (Messages.completeWith 0 200 3)]).get (by decide +kernel)

theorem sampleDelivery_reachable : (system deliveryPlatform).Reachable sampleDelivery :=
  ⟨_, (Option.some_get _).symm⟩

theorem posted_elements_sampleDelivery :
    (sampleDelivery.cluster.log.filterMap sampleDelivery.postedElement).Nodup ∧
      sampleDelivery.cluster.log.filterMap sampleDelivery.postedElement = [(0, 0)] :=
  ⟨(posted_elements sampleDelivery_reachable).1, by decide +kernel⟩

/-- The message of the sample run, as its report has it. -/
def sampleEntry : QueuedMessage :=
  { id := 7, guildId := 5, recipient := 9, embed := {}, tries := 1, processedAt := 2 }

theorem reported_posted_sampleDelivery : ∃ k channel,
    .posted k 9 { embeds := [{}], channelId := channel } ∈ sampleDelivery.cluster.log := by
  obtain ⟨c, position, qm, k, channel, -, -, -, -, hposted, -⟩ :=
    @reported_posted deliveryPlatform sampleDelivery sampleDelivery_reachable 0 0 [sampleEntry]
      (by decide +kernel) sampleEntry List.mem_cons_self rfl
  exact ⟨k, channel, hposted⟩

/-! ### Channels that cannot be read -/

/-- The call waits for a direct message that was lost: the answer of the creation of its
channel could not be read. -/
structure Lost (d : Deliveries) (call : Nat) (frame : Frame) : Prop where
  suspended : d.world.calls[call]? = some frame
  awaiting : frame.awaiting = .directMessage
  caught : ∃ n user, d.sending[call]? = some n ∧ .caught n user ∈ d.cluster.log

/-- What was lost is not posted, so the call is not taken on. -/
theorem Lost.not_mayHappen {d : Deliveries} (side : Sides P d) {call : Nat} {frame : Frame}
    (lost : Lost d call frame) {l : Label} (h : d.mayHappen l = true) :
    Messages.isCompletionOf call l = false := by
  by_contra hcompletion
  cases l with
  | complete c result now storage =>
    obtain rfl : c = call := by simpa [Messages.isCompletionOf] using hcompletion
    obtain ⟨n, user, m, hn, hposted⟩ :=
      mem_posted_of_mayHappen h lost.suspended lost.awaiting
    obtain ⟨k, user', hk, hcaught⟩ := lost.caught
    rw [hn, Option.some.injEq] at hk
    subst hk
    have htwo := EventLog.two_le_countP (p := DirectMessages.Event.settles n)
      (by simp) hposted hcaught (by simp [DirectMessages.Event.settles])
      (by simp [DirectMessages.Event.settles])
    have hcount := (DirectMessages.counted side.cluster).settles n
    have hmade := DirectMessages.made_le d.cluster.nextCall n
    omega
  | _ => exact hcompletion rfl

theorem lost_preserved (call : Nat) (frame : Frame) :
    (system P).Preserved fun d => Sides P d ∧ Lost d call frame := by
  rintro d l d' ⟨side, lost⟩ hstep
  refine ⟨sides_preserved d l d' side hstep, ?_⟩
  have hstep : step P d l = some d' := hstep
  obtain ⟨n, user, hn, hcaught⟩ := lost.caught
  cases l with
  | messages l =>
    simp only [step] at hstep
    split at hstep
    · rename_i hmay
      obtain ⟨world, hnext, rfl⟩ := Option.map_eq_some_iff.mp hstep
      have other := lost.not_mayHappen side hmay
      have hkept := Messages.frame_kept (Messages.positioned side.world) hnext lost.suspended
        (.inl other)
      split
      · exact ⟨hkept, lost.awaiting, n, user, hn, hcaught⟩
      · rename_i c position m hsentBy
        have hc : c ≠ call := by
          rintro rfl
          cases l with
          | complete c' result now storage =>
            simp only [sentBy, Option.bind_eq_bind, Option.bind_eq_some_iff] at hsentBy
            obtain ⟨f, -, hf⟩ := hsentBy
            split at hf
            · split at hf
              · cases hf
                simp [Messages.isCompletionOf] at other
              · cases hf
            · cases hf
          | _ => cases hsentBy
        refine ⟨hkept, lost.awaiting, n, user, ?_,
          mem_send hcaught (.element c position) m.recipient { embeds := [m.embed] }⟩
        simpa [Std.ExtTreeMap.getElem?_insert, hc] using hn
    · cases hstep
  | probe u =>
    simp only [step, Option.some.injEq] at hstep
    exact hstep ▸ ⟨lost.suspended, lost.awaiting, n, user, hn, mem_send hcaught _ _ _⟩
  | cluster l =>
    obtain ⟨cluster, -, ⟨-, new, hlog, -⟩, rfl⟩ := step_cluster hstep
    exact ⟨lost.suspended, lost.awaiting, n, user, hn, hlog ▸ List.mem_append_right _ hcaught⟩

/-- **An unreadable channel ends a batch**: whatever happens afterwards, the call stays where it
is. It handles none of the elements behind, posts no report and does not return. -/
theorem lost_forever {d d' : Deliveries} (hd : (system P).Reachable d) {call : Nat}
    {frame : Frame} (lost : Lost d call frame) {inputs : List Input}
    (hrun : (system P).run d inputs = some d') :
    d'.world.calls[call]? = some frame ∧ .returned call ∉ d'.world.log ∧
      (∀ n entries, .reported call n entries ∉ d'.world.log) ∧
      ∀ e ∈ d'.world.log, ∀ position, e.place? = some (call, position) →
        frame.rest.length ≤ position := by
  obtain ⟨side, hlost⟩ := (lost_preserved call frame).run ⟨sides hd, lost⟩ hrun
  have hs := (Messages.positioned side.world).suspended call frame hlost.suspended
  exact ⟨hlost.suspended, hs.active,
    fun n entries hmem => hs.active (Messages.reported_returned side.world _ n entries hmem), hs.ahead⟩

/-- The channel created for the first of two elements cannot be read. -/
def lostDelivery : Deliveries :=
  ((system deliveryPlatform).run {}
    [.messages (.deliver (.array [Messages.sampleMessage 7, Messages.sampleMessage 8]) 1
      fun _ => 0), .messages (Messages.completeWith 0 200 2), channelAnswered 0 "odd"]).get
    (by decide +kernel)

/-- The recipient has got a channel since, and another element was listed. -/
def lostLater : Deliveries :=
  ((system deliveryPlatform).run lostDelivery
    [.probe 9, channelAnswered 1 "channel", .messages (Messages.listMessage 9 31)]).get
    (by decide +kernel)

theorem lost_forever_lostLater : .returned 0 ∉ lostLater.world.log ∧
    ∀ n entries, .reported 0 n entries ∉ lostLater.world.log := by
  have waits : (lostDelivery.world.calls[0]?).map Frame.awaiting = some .directMessage := by
    decide +kernel
  obtain ⟨frame, hframe, hawait⟩ := Option.map_eq_some_iff.mp waits
  have lost : Lost lostDelivery 0 frame :=
    ⟨hframe, hawait, 0, 9, by decide +kernel, by decide +kernel⟩
  obtain ⟨-, silent, unreported, -⟩ := @lost_forever deliveryPlatform lostDelivery lostLater
    ⟨_, (Option.some_get _).symm⟩ 0 frame lost _ (Option.some_get _).symm
  exact ⟨silent, unreported⟩

end Deliveries
