import CordactylBot.Messages.Carried
import CordactylBot.Dpp.DirectMessages

/-!
From the panel's elements to Discord's messages.

The calls of `process_new_messages` and the probes of `handle_appeal` hand their direct
messages to the same cluster, which creates the channels and posts them. A call goes on after
its direct message only when the post was answered, so the two sides wait for each other. The
answers of the creations are the cluster's, which loses the direct message when it cannot read
one.

* `stepped` — everything a step can do.
* `sides` — a run of both is a run of each.
-/

open Dpp

/-- Who asked for a direct message. -/
inductive Sender where
  /-- a call of `process_new_messages`, for an element of its array -/
  | element (call position : Nat)
  /-- `handle_appeal` -/
  | appeal
deriving DecidableEq, Repr

/-- The bot's message processing and its cluster. `senders` has the sender of each direct
message, `sending` the direct message a call waits for. -/
structure Deliveries where
  world : World := {}
  cluster : DirectMessages := {}
  senders : Std.ExtTreeMap Nat Sender compare := ∅
  sending : Std.ExtTreeMap Nat Nat compare := ∅

namespace Deliveries

variable (P : Platform)

/-- `direct_message_create`. -/
def send (d : Deliveries) (sender : Sender) (user : UInt64) (m : Message) : Deliveries :=
  { d with
    cluster := d.cluster.directMessageCreate user m
    senders := d.senders.insert d.cluster.nextCall sender }

/-- A completion of a direct message can only come when it was posted. What the calls see of
the creation of a channel is the cluster's business here. -/
def mayHappen (d : Deliveries) : Label → Bool
  | .complete call .. =>
      match d.world.calls[call]? with
      | some { awaiting := .directMessage, .. } =>
          d.sending[call]?.any fun n => d.cluster.log.any fun
            | .posted k .. => k = n
            | _ => false
      | _ => true
  | .created .. => false
  | _ => true

/-- The element whose send a step of the message processing takes to its direct message. -/
def sentBy (w : World) : Label → Option (Nat × Nat × QueuedMessage)
  | .complete call result now _ => do
      let frame ← w.waiting call
      if frame.awaiting.reads P result then
        match frame.message.sendToDiscord P now frame.awaiting (P.httpInfo result) with
        | .suspended m => some (call, frame.rest.length, m)
        | .returned _ => none
      else none
  | _ => none

/-- What happens from outside. -/
inductive Input where
  | messages (l : Label)
  | probe (user : UInt64)
  | cluster (l : DirectMessages.Label)

def step (d : Deliveries) : Input → Option Deliveries
  | .messages l =>
      if d.mayHappen l then
        (Messages.step P d.world l).map fun world =>
          match sentBy P d.world l with
          | none => { d with world }
          | some (call, position, m) =>
              { d.send (.element call position) m.recipient { embeds := [m.embed] } with
                world
                sending := d.sending.insert call d.cluster.nextCall }
      else none
  | .probe user => some (d.send .appeal user {})
  | .cluster (.direct ..) => none
  | .cluster l => (DirectMessages.step P d.cluster l).map fun cluster => { d with cluster }

def system : Transition.System Deliveries Input where
  start := {}
  step := step P

variable {P}

/-! ### What a step does -/

/-- Nothing is sent, or taken to its direct message, on the way from `w` to `w'`. -/
structure Quiet (w w' : World) : Prop where
  log : ∃ new, w'.log = new ++ w.log ∧ (∀ e ∈ new, Messages.directMessageTag e = none) ∧
    ∀ e ∈ new, ∀ call position m, e ≠ .sent call position m
  frames : ∀ (call : Nat) frame, w'.calls[call]? = some frame →
    w.calls[call]? = some frame ∨ frame.awaiting = .memberLookup

theorem Quiet.refl (w : World) : Quiet w w :=
  ⟨⟨[], rfl, by simp, by simp⟩, fun _ _ hf => .inl hf⟩

theorem Quiet.extend {w w₁ w₂ : World} {new : List Event} (h : Quiet w w₁)
    (hlog : w₂.log = new ++ w₁.log)
    (quiet : ∀ e ∈ new, Messages.directMessageTag e = none ∧
      ∀ call position m, e ≠ .sent call position m)
    (frames : ∀ (call : Nat) frame, w₂.calls[call]? = some frame →
      w₁.calls[call]? = some frame ∨ frame.awaiting = .memberLookup) : Quiet w w₂ := by
  obtain ⟨⟨old, hold, htags, hsents⟩, hframes⟩ := h
  refine ⟨⟨new ++ old, by rw [hlog, hold, List.append_assoc], fun e he => ?_, fun e he => ?_⟩,
    fun call frame hf => ?_⟩
  · rcases List.mem_append.mp he with he | he
    · exact (quiet e he).1
    · exact htags e he
  · rcases List.mem_append.mp he with he | he
    · exact (quiet e he).2
    · exact hsents e he
  · rcases frames call frame hf with hf | hawait
    · exact hframes call frame hf
    · exact .inr hawait

theorem Quiet.cons {w w₁ w₂ : World} {e : Event} (h : Quiet w w₁) (hlog : w₂.log = e :: w₁.log)
    (quiet : Messages.directMessageTag e = none ∧ ∀ call position m, e ≠ .sent call position m)
    (frames : ∀ (call : Nat) frame, w₂.calls[call]? = some frame →
      w₁.calls[call]? = some frame ∨ frame.awaiting = .memberLookup) : Quiet w w₂ := by
  have hlog : w₂.log = [e] ++ w₁.log := hlog
  exact h.extend hlog (fun e' he' => List.mem_singleton.mp he' ▸ quiet) frames

/-- An answer that cannot be read sends nothing. -/
theorem Quiet.lose (w : World) (call : Nat) : Quiet w (w.lose call) :=
  (Quiet.refl w).extend (Messages.lose_log w call) (by simp) fun _ _ hf => .inl hf

theorem Quiet.nextMessage {w w₁ : World} {now : Int} {storage : Nat → UInt64} {call : Nat}
    {elements : List Json} (h : Quiet w w₁) :
    Quiet w (w₁.nextMessage P now storage call elements) := by
  refine Messages.nextMessage_rule (I := fun _ => Quiet w) (J := Quiet w) ?_ ?_ ?_ elements w₁ h
  · intro message rest w₂ e _ h
    exact h.cons rfl ⟨rfl, by simp⟩ fun _ _ hf => .inl hf
  · intro message rest w₂ m _ h
    refine h.cons rfl ⟨rfl, by simp⟩ fun c frame hf => ?_
    rw [World.awaitMember, Std.ExtTreeMap.getElem?_insert] at hf
    split at hf
    · cases hf
      exact .inr rfl
    · exact .inl hf
  · intro w₂ h
    rw [Messages.finishBatch_eq]
    refine h.extend (Messages.finish_log w₂ call _) (fun e he => ?_) fun _ _ hf => .inl hf
    rcases Messages.mem_finishEvents he with rfl | rfl | ⟨m, -, rfl⟩ <;>
      exact ⟨rfl, by simp⟩

/-- What the cluster does besides `direct_message_create`. -/
def Answers (s s' : DirectMessages) : Prop :=
  s'.nextCall = s.nextCall ∧ ∃ new, s'.log = new ++ s.log ∧
    ∀ e ∈ new, ∀ n user m, e ≠ .requested n user m

/-- Everything a step can do. -/
inductive Stepped (P : Platform) (d : Deliveries) : Deliveries → Prop where
  /-- the message processing goes on without sending -/
  | quiet (world : World) (hquiet : Quiet d.world world) : Stepped P d { d with world }
  /-- a send is taken to its direct message -/
  | issued (call : Nat) (frame : Frame) (now : Int) (hf : d.world.calls[call]? = some frame)
      (hawait : frame.awaiting = .memberLookup) : Stepped P d
      { d.send (.element call frame.rest.length) frame.message.recipient
          { embeds := [frame.message.embed] } with
        world := d.world.awaitDirectMessage call { frame.message with processedAt := now }
          frame.rest
        sending := d.sending.insert call d.cluster.nextCall }
  /-- a send ends -/
  | sent (call : Nat) (frame : Frame) (m : QueuedMessage) (world : World)
      (hf : d.world.calls[call]? = some frame) (hfixed : m.fixed = frame.message.fixed)
      (hposted : m.error = none → frame.awaiting = .directMessage ∧
        ∃ n user message, d.sending[call]? = some n ∧ .posted n user message ∈ d.cluster.log)
      (hquiet : Quiet ((d.world.sent call frame.rest.length m).store m) world) :
      Stepped P d { d with world }
  | probed (user : UInt64) : Stepped P d (d.send .appeal user {})
  | answered (cluster : DirectMessages) (h : Answers d.cluster cluster) :
      Stepped P d { d with cluster }

theorem mem_posted_of_mayHappen {d : Deliveries} {call : Nat} {result : Answer}
    {now : Int} {storage : Nat → UInt64} {frame : Frame}
    (h : d.mayHappen (.complete call result now storage) = true)
    (hf : d.world.calls[call]? = some frame) (hawait : frame.awaiting = .directMessage) :
    ∃ n user message, d.sending[call]? = some n ∧ .posted n user message ∈ d.cluster.log := by
  obtain ⟨m, awaiting, rest⟩ := frame
  obtain rfl : awaiting = .directMessage := hawait
  simp only [mayHappen, hf, Option.any_eq_true, List.any_eq_true] at h
  obtain ⟨n, hn, e, he, hposted⟩ := h
  cases e with
  | posted k user message =>
    obtain rfl : k = n := of_decide_eq_true hposted
    exact ⟨k, user, message, hn, he⟩
  | _ => cases hposted

theorem answers_step {s s' : DirectMessages} {l : DirectMessages.Label}
    (h : DirectMessages.step P s l = some s') (other : ∀ user m, l ≠ .direct user m) :
    Answers s s' := by
  cases l with
  | announce known j =>
    simp only [DirectMessages.step, Option.map_eq_some_iff] at h
    obtain ⟨channel, -, rfl⟩ := h
    rw [DirectMessages.announced_eq]
    exact ⟨rfl, [.announced channel], rfl, by simp⟩
  | list rv order =>
    have unlisted : Answers s ({ s with listing := false }.emit .unlisted) :=
      ⟨rfl, [.unlisted], rfl, by simp⟩
    simp only [DirectMessages.step] at h
    split at h
    · cases h
    · split at h
      · cases h
        exact unlisted
      · split at h
        · cases h
          exact unlisted
        · split at h
          · cases h
            rw [DirectMessages.listed_eq]
            exact ⟨rfl, [.listed order], rfl, by simp⟩
          · cases h
  | direct user m => exact absurd rfl (other user m)
  | created call rv =>
    simp only [DirectMessages.step, Option.map_eq_some_iff] at h
    obtain ⟨creation, -, rfl⟩ := h
    unfold DirectMessages.created
    simp only
    split
    · exact ⟨rfl, [.caught call creation.user], rfl, by simp⟩
    · rename_i channel hchannel
      split
      all_goals exact ⟨rfl, [.posted call creation.user
        { creation.message with channelId := channel.id },
        .created call creation.user (P.httpInfo rv) channel], rfl, by simp⟩

theorem step_cluster {d d' : Deliveries} {l : DirectMessages.Label}
    (h : step P d (.cluster l) = some d') :
    ∃ cluster, DirectMessages.step P d.cluster l = some cluster ∧ Answers d.cluster cluster ∧
      d' = { d with cluster } := by
  have hother : (∀ user m, l ≠ .direct user m) ∧
      ((DirectMessages.step P d.cluster l).map fun cluster => { d with cluster }) = some d' := by
    cases l with
    | direct user m => cases h
    | _ => exact ⟨by simp, h⟩
  obtain ⟨cluster, hstep, rfl⟩ := Option.map_eq_some_iff.mp hother.2
  exact ⟨cluster, hstep, answers_step hstep hother.1, rfl⟩

/-- **Step inversion.** -/
theorem stepped {d d' : Deliveries} {l : Input} (h : step P d l = some d') : Stepped P d d' := by
  cases l with
  | messages l =>
    simp only [step] at h
    split at h
    · rename_i hmay
      obtain ⟨world, hstep, rfl⟩ := Option.map_eq_some_iff.mp h
      have delivered : ∀ messages, Quiet d.world (d.world.deliver messages) := fun messages =>
        (Quiet.refl d.world).cons rfl ⟨rfl, by simp⟩ fun _ _ hf => .inl hf
      cases l with
      | deliver messages now storage =>
        refine .quiet world ?_
        rcases Messages.step_deliver hstep with rfl | ⟨elements, rfl, -⟩
        · exact (delivered _).cons rfl ⟨rfl, by simp⟩ fun _ _ hf => .inl hf
        · exact (delivered _).nextMessage
      | complete call result now storage =>
        obtain ⟨frame, hu, rfl⟩ | ⟨frame, hf, hor⟩ := Messages.step_complete hstep
        · have unsent : sentBy P d.world (.complete call result now storage) = none := by
            rcases hu.2 with ⟨r, t, s, hl, hread⟩ | ⟨r, hl, -⟩
            · cases hl
              simp [sentBy, hu.1, hread]
            · cases hl
          rw [unsent]
          exact .quiet _ (Quiet.lose d.world call)
        · have hwaiting := Messages.waiting_eq_some.mpr ⟨hf.waits, hf.suspended⟩
          obtain ⟨hawait, hm, rfl⟩ | ⟨m, hm, rfl⟩ := hor
          · simp only [sentBy, hwaiting, hf.read, hm, Option.bind_eq_bind, Option.bind_some, if_true]
            exact .issued call frame now hf.suspended hawait
          · simp only [sentBy, hwaiting, hf.read, hm, Option.bind_eq_bind, Option.bind_some, if_true]
            obtain ⟨hfixed, herror⟩ := QueuedMessage.sendToDiscord_returned hm
            refine .sent call frame m _ hf.suspended hfixed (fun hnone => ?_)
              (Quiet.refl _).nextMessage
            exact ⟨herror hnone, mem_posted_of_mayHappen hmay hf.suspended (herror hnone)⟩
      | created call result => cases hmay
      | answer n response =>
        obtain ⟨r, -, rfl⟩ := Option.map_eq_some_iff.mp hstep
        refine .quiet _ ((Quiet.refl d.world).extend (Messages.answer_log d.world n r response)
          (fun e he => ?_) fun _ _ hf => .inl hf)
        rcases Messages.mem_answerEvents he with ⟨m, rfl⟩ | rfl <;> exact ⟨rfl, by simp⟩
    · cases h
  | probe user =>
    simp only [step, Option.some.injEq] at h
    exact h ▸ .probed user
  | cluster l =>
    obtain ⟨cluster, -, answers, rfl⟩ := step_cluster h
    exact .answered cluster answers

/-! ### The two sides of a run -/

theorem directMessageCreate_log (s : DirectMessages) (user : UInt64) (m : Message) :
    (s.directMessageCreate user m).nextCall = s.nextCall + 1 ∧
      ∃ new, (s.directMessageCreate user m).log = new ++ .requested s.nextCall user m :: s.log ∧
        ∀ e ∈ new, ∀ n u m', e ≠ .requested n u m' := by
  unfold DirectMessages.directMessageCreate
  simp only
  split
  · exact ⟨rfl, [.creating s.nextCall user], rfl, by simp⟩
  · exact ⟨rfl, [.posted s.nextCall user { m with channelId := _ }], rfl, by simp⟩

/-- A run of both is a run of each. -/
structure Sides (P : Platform) (d : Deliveries) : Prop where
  world : (Messages.system P).Reachable d.world
  cluster : (DirectMessages.system P).Reachable d.cluster

theorem sides_preserved : (system P).Preserved (Sides P) := by
  rintro d l d' ⟨hworld, hcluster⟩ hstep
  have hstep : step P d l = some d' := hstep
  have created : ∀ user m, (DirectMessages.system P).Reachable
      (d.cluster.directMessageCreate user m) := fun user m => hcluster.step (a := .direct user m) rfl
  cases l with
  | messages l =>
    simp only [step] at hstep
    split at hstep
    · obtain ⟨world, hnext, rfl⟩ := Option.map_eq_some_iff.mp hstep
      split
      · exact ⟨hworld.step hnext, hcluster⟩
      · exact ⟨hworld.step hnext, created _ _⟩
    · cases hstep
  | probe user =>
    simp only [step, Option.some.injEq] at hstep
    exact hstep ▸ ⟨hworld, created user {}⟩
  | cluster l =>
    obtain ⟨cluster, hnext, -, rfl⟩ := step_cluster hstep
    exact ⟨hworld, hcluster.step (a := l) hnext⟩

theorem sides {d : Deliveries} (hd : (system P).Reachable d) : Sides P d :=
  hd.invariant ⟨⟨[], rfl⟩, ⟨[], rfl⟩⟩ sides_preserved

end Deliveries
