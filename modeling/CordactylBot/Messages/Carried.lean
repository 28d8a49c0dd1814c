import CordactylBot.Messages.Completion

/-!
What a send carries.

A message keeps what the constructor read of it, whatever its send and the reports about it
do: `QueuedMessage.fixed` leaves out what these change. `carried` says so of everything a
world holds, the suspended sends, the completed ones, the cache and the reports.
-/

namespace QueuedMessage

variable {P : Platform}

/-- The message without what its send and the sweeps change. -/
def fixed (m : QueuedMessage) : QueuedMessage :=
  { m with error := none, tries := 0, processedAt := 0 }

@[simp] theorem retry_fixed (m : QueuedMessage) : m.retry.fixed = m.fixed := rfl

theorem addressed_of_fixed {m m' : QueuedMessage} (h : m.fixed = m'.fixed) :
    m.id = m'.id ∧ m.recipient = m'.recipient ∧ m.embed = m'.embed := by
  have hid := congrArg QueuedMessage.id h
  have hrecipient := congrArg QueuedMessage.recipient h
  have hembed := congrArg QueuedMessage.embed h
  exact ⟨hid, hrecipient, hembed⟩

theorem sendToDiscord_suspended {now : Int} {awaiting : Await} {message m : QueuedMessage}
    {result : HttpRequestCompletion}
    (h : sendToDiscord P now awaiting message result = .suspended m) :
    awaiting = .memberLookup ∧ m = { message with processedAt := now } := by
  cases awaiting with
  | memberLookup =>
    simp only [sendToDiscord] at h
    split at h
    · cases h
    · cases h
      exact ⟨rfl, rfl⟩
  | directMessage =>
    obtain ⟨m', hm'⟩ := sendToDiscord_directMessage P now message result
    rw [hm'] at h
    cases h

/-- A send that ends without an error ends after its direct message. -/
theorem sendToDiscord_returned {now : Int} {awaiting : Await} {message m : QueuedMessage}
    {result : HttpRequestCompletion}
    (h : sendToDiscord P now awaiting message result = .returned m) :
    m.fixed = message.fixed ∧ (m.error = none → awaiting = .directMessage) := by
  cases awaiting with
  | memberLookup =>
    simp only [sendToDiscord] at h
    split at h
    · cases h
      refine ⟨rfl, fun herror => ?_⟩
      cases herror
    · cases h
  | directMessage =>
    simp only [sendToDiscord] at h
    split at h
    all_goals
      cases h
      exact ⟨rfl, fun _ => rfl⟩

end QueuedMessage

namespace Messages

open World

variable {P : Platform}

/-- The element at this place of the array delivered to `call` is read as the message. -/
def Reads (P : Platform) (w : World) (call position : Nat) (m : QueuedMessage) : Prop :=
  ∃ done element rest now storage, .delivered call (.array (done ++ element :: rest)) ∈ w.log ∧
    rest.length = position ∧ QueuedMessage.ofJson P now storage element = .ok m

theorem Reads.extend {w w' : World} {call position : Nat} {m : QueuedMessage} {new : List Event}
    (h : Reads P w call position m) (hlog : w'.log = new ++ w.log) :
    Reads P w' call position m := by
  obtain ⟨done, element, rest, now, storage, hdel, hrest⟩ := h
  exact ⟨done, element, rest, now, storage, hlog ▸ List.mem_append_right _ hdel, hrest⟩

/-- The send of the message was completed. -/
def Completed (w : World) (m : QueuedMessage) : Prop :=
  ∃ call position m', .sent call position m' ∈ w.log ∧ m'.fixed = m.fixed ∧
    m'.outcome = m.outcome

theorem Completed.extend {w w' : World} {m : QueuedMessage} {new : List Event}
    (h : Completed w m) (hlog : w'.log = new ++ w.log) : Completed w' m := by
  obtain ⟨call, position, m', hsent, hfixed, houtcome⟩ := h
  exact ⟨call, position, m', hlog ▸ List.mem_append_right _ hsent, hfixed, houtcome⟩

/-- The message of a suspended call is the one its element was read as. -/
def Carries (P : Platform) (w : World) (call : Nat) (frame : Frame) : Prop :=
  frame.message.error = none ∧
    ∃ m, Reads P w call frame.rest.length m ∧ frame.message.fixed = m.fixed

/-- Every message is one an element was read as. -/
structure Carried (P : Platform) (w : World) : Prop where
  frames : ∀ (call : Nat) frame, w.calls[call]? = some frame → Carries P w call frame
  sent : ∀ call position m, .sent call position m ∈ w.log →
    ∃ qm, Reads P w call position qm ∧ m.fixed = qm.fixed
  cached : ∀ (id : UInt64) m, w.cache.cacheMap[id]? = some m → Completed w m
  reported : ∀ call n entries, .reported call n entries ∈ w.log → ∀ m ∈ entries, Completed w m

/-- A move that completes no send. -/
theorem Carried.extend {w w' : World} {new : List Event} (h : Carried P w)
    (hlog : w'.log = new ++ w.log) (unsent : ∀ e ∈ new, ∀ call position m, e ≠ .sent call position m)
    (entries : ∀ call n entries, .reported call n entries ∈ new → ∀ m ∈ entries, Completed w m)
    (frames : ∀ (call : Nat) frame, w'.calls[call]? = some frame →
      w.calls[call]? = some frame ∨ Carries P w' call frame)
    (cache : ∀ (id : UInt64) m, w'.cache.cacheMap[id]? = some m → Completed w m) :
    Carried P w' := by
  refine ⟨fun call frame hf => ?_, fun call position m hmem => ?_,
    fun id m hm => (cache id m hm).extend hlog, fun call n es hmem m hm => ?_⟩
  · rcases frames call frame hf with hold | hnew
    · obtain ⟨herror, m, hreads, hfixed⟩ := h.frames call frame hold
      exact ⟨herror, m, hreads.extend hlog, hfixed⟩
    · exact hnew
  · rcases List.mem_append.mp (hlog ▸ hmem) with he | he
    · exact absurd rfl (unsent _ he call position m)
    · obtain ⟨qm, hreads, hfixed⟩ := h.sent call position m he
      exact ⟨qm, hreads.extend hlog, hfixed⟩
  · rcases List.mem_append.mp (hlog ▸ hmem) with he | he
    · exact (entries call n es he m hm).extend hlog
    · exact (h.reported call n es he m hm).extend hlog

/-- One event that neither completes a send nor reports, the rest as it was. -/
theorem Carried.cons {w w' : World} {e : Event} (h : Carried P w) (hlog : w'.log = e :: w.log)
    (other : (∀ call position m, e ≠ .sent call position m) ∧
      ∀ call n entries, e ≠ .reported call n entries)
    (frames : ∀ (call : Nat) frame, w'.calls[call]? = some frame →
      w.calls[call]? = some frame ∨ Carries P w' call frame)
    (hcache : w'.cache = w.cache) : Carried P w' := by
  have hlog : w'.log = [e] ++ w.log := hlog
  refine h.extend hlog (fun e' he' => List.mem_singleton.mp he' ▸ other.1) ?_ frames ?_
  · intro call n entries hmem
    exact absurd (List.mem_singleton.mp hmem).symm (other.2 call n entries)
  · intro id m hm
    exact h.cached id m (hcache ▸ hm)

theorem carried_awaitMember {w : World} {call : Nat} {message : Json} {rest : List Json}
    {now : Int} {storage : UInt64} {m : QueuedMessage} (hr : Running w call (message :: rest))
    (hm : QueuedMessage.ofJson P now storage message = .ok m) (h : Carried P w) :
    Carried P (w.awaitMember call m rest) := by
  refine h.cons rfl (by simp) (fun c frame hf => ?_) rfl
  rw [World.awaitMember, Std.ExtTreeMap.getElem?_insert] at hf
  split at hf
  · rename_i heq
    rw [Std.LawfulEqCmp.compare_eq_iff_eq] at heq
    subst heq
    cases hf
    obtain ⟨done, hdel, -⟩ := hr.suffix
    exact .inr ⟨(QueuedMessage.ofJson_fresh P hm).2.1, m,
      ⟨done, message, rest, now, storage, List.mem_cons_of_mem _ hdel, rfl, hm⟩, rfl⟩
  · exact .inl hf

theorem carried_finish {w : World} (call : Nat) (body : Json) (h : Carried P w) :
    Carried P ((w.sweep.request call body).emit (.returned call)) := by
  have swept : ∀ (id : UInt64) m,
      w.cache.clearGarbageAndIncreaseTries.cacheMap[id]? = some m → Completed w m := by
    intro id m hm
    obtain ⟨message, hmessage, -, rfl⟩ := ProcessedMessageCache.swept_eq_some.mp hm
    obtain ⟨c, p, m', hsent, hfixed, houtcome⟩ := h.cached id message hmessage
    exact ⟨c, p, m', hsent, by rw [hfixed, QueuedMessage.retry_fixed],
      by rw [houtcome, QueuedMessage.retry_outcome]⟩
  refine h.extend (finish_log w call body) (fun e he c p m => ?_) (fun c n es he m hm => ?_)
    (fun c frame hf => .inl hf) swept
  · rcases mem_finishEvents he with rfl | rfl | ⟨m', -, rfl⟩ <;> simp
  · rcases mem_finishEvents he with he | he | ⟨m', -, he⟩
    · cases he
    · cases he
      obtain ⟨id, hid⟩ := ProcessedMessageCache.mem_snapshot.mp hm
      exact swept id m hid
    · cases he

theorem carried_sent {w : World} {call : Nat} {frame : Frame} {m : QueuedMessage}
    (hf : w.calls[call]? = some frame) (hfixed : m.fixed = frame.message.fixed)
    (h : Carried P w) : Carried P ((w.sent call frame.rest.length m).store m) := by
  obtain ⟨new, hlog, hnew⟩ := store_log (w.sent call frame.rest.length m) m
  obtain ⟨-, qm, hreads, hframe⟩ := h.frames call frame hf
  have hsent : (w.sent call frame.rest.length m).log =
      [.sent call frame.rest.length m] ++ w.log := rfl
  have sent : Carried P (w.sent call frame.rest.length m) := by
    refine ⟨fun c f hc => ?_, fun c p m' hmem => ?_, fun id m' hm' => ?_, fun c n es hmem m' hm' => ?_⟩
    · simp only [World.sent, Std.ExtTreeMap.getElem?_erase] at hc
      split at hc
      · cases hc
      · obtain ⟨herror, m', hreads', hfixed'⟩ := h.frames c f hc
        exact ⟨herror, m', hreads'.extend hsent, hfixed'⟩
    · rcases List.mem_cons.mp hmem with he | he
      · cases he
        exact ⟨qm, hreads.extend hsent, hfixed.trans hframe⟩
      · obtain ⟨q, hq, hfixed'⟩ := h.sent c p m' he
        exact ⟨q, hq.extend hsent, hfixed'⟩
    · exact (h.cached id m' hm').extend hsent
    · rcases List.mem_cons.mp hmem with he | he
      · cases he
      · exact (h.reported c n es he m' hm').extend hsent
  refine sent.extend hlog (fun e he c p m' => ?_) (fun c n es he => ?_)
    (fun c f hc => .inl hc) (fun id m' hm' => ?_)
  · rw [hnew e he]
    simp
  · exact absurd (hnew _ he) (by simp)
  · rw [World.store, ProcessedMessageCache.getElem?_store] at hm'
    split at hm'
    · cases hm'
      exact ⟨call, frame.rest.length, m, List.mem_cons_self, rfl, rfl⟩
    · exact sent.cached id m' hm'

theorem carried_nextMessage {w : World} {now : Int} {storage : Nat → UInt64} {call : Nat}
    {elements : List Json} (hp : Positioned P w) (hr : Running w call elements)
    (h : Carried P w) : Carried P (w.nextMessage P now storage call elements) := by
  refine nextMessage_rule (I := fun rest w => Positioned P w ∧ Running w call rest ∧ Carried P w)
    (J := Carried P) ?_ ?_ ?_ elements w ⟨hp, hr, h⟩
  · rintro message rest w e - ⟨hp, hr, h⟩
    exact ⟨positioned_rejected hp hr, running_rejected hr,
      h.cons rfl (by simp) (fun _ _ hf => .inl hf) rfl⟩
  · rintro message rest w m hm ⟨-, hr, h⟩
    exact carried_awaitMember hr hm h
  · rintro w ⟨-, -, h⟩
    rw [finishBatch_eq]
    exact carried_finish call _ h

/-- A completion that can be read moves a send from its lookup to its direct message, or
ends it. -/
theorem step_complete {w w' : World} {call : Nat} {result : Answer} {now : Int}
    {storage : Nat → UInt64} (h : step P w (.complete call result now storage) = some w') :
    (∃ frame, Unread P w call frame (.complete call result now storage) ∧ w' = w.lose call) ∨
    ∃ frame, Taken P w call result frame ∧
      ((frame.awaiting = .memberLookup ∧
        frame.message.sendToDiscord P now frame.awaiting (P.httpInfo result) =
          .suspended { frame.message with processedAt := now } ∧
        w' = w.awaitDirectMessage call { frame.message with processedAt := now } frame.rest) ∨
      ∃ m, frame.message.sendToDiscord P now frame.awaiting (P.httpInfo result) = .returned m ∧
        w' = ((w.sent call frame.rest.length m).store m).nextMessage P now storage call
          frame.rest) := by
  simp only [step, Option.map_eq_some_iff] at h
  obtain ⟨frame, hframe, rfl⟩ := h
  split
  · rename_i hread
    obtain ⟨hwaits, hsuspended⟩ := waiting_eq_some.mp hframe
    refine .inr ⟨frame, ⟨hwaits, hsuspended, hread⟩, ?_⟩
    unfold resume
    split
    · rename_i m hm
      obtain ⟨hawait, rfl⟩ := QueuedMessage.sendToDiscord_suspended hm
      exact .inl ⟨hawait, hm, rfl⟩
    · rename_i m hm
      exact .inr ⟨m, hm, rfl⟩
  · rename_i hread
    rw [Bool.not_eq_true] at hread
    exact .inl ⟨frame, ⟨hframe, .inl ⟨result, now, storage, rfl, hread⟩⟩, rfl⟩

/-- A delivery starts a call, which returns at once or goes through the array. -/
theorem step_deliver {w w' : World} {messages : Json} {now : Int} {storage : Nat → UInt64}
    (h : step P w (.deliver messages now storage) = some w') :
    w' = (w.deliver messages).emit (.returned w.nextCall) ∨
      ∃ elements, w' = (w.deliver messages).nextMessage P now storage w.nextCall elements ∧
        messages = .array elements := by
  simp only [step, Option.some.injEq] at h
  subst h
  unfold processNewMessages
  split
  · exact .inl rfl
  · exact .inr ⟨_, rfl, rfl⟩
  · exact .inl rfl

/-- The creation of a channel changes nothing the calls see, unless it cannot be read. -/
theorem step_created {w w' : World} {call : Nat} {result : HttpRequestCompletion}
    (h : step P w (.created call result) = some w') : w' = w ∨ w' = w.lose call := by
  simp only [step, Option.bind_eq_some_iff] at h
  obtain ⟨frame, -, h⟩ := h
  split at h
  · cases h
  · split at h
    · exact .inl (Option.some.inj h).symm
    · exact .inr (Option.some.inj h).symm

theorem Carried.lose {w : World} (h : Carried P w) (call : Nat) : Carried P (w.lose call) :=
  h.extend (lose_log w call) (by simp) (by simp) (fun _ _ hf => .inl hf) h.cached

theorem carried_preserved :
    (system P).Preserved fun w => Positioned P w ∧ Carried P w := by
  rintro w l w' ⟨hp, h⟩ hstep
  have hstep : step P w l = some w' := hstep
  refine ⟨(step_moves (Q := fun _ _ => True) hp hstep trivial).1, ?_⟩
  have delivered : ∀ messages, Carried P (w.deliver messages) := fun messages =>
    h.cons rfl (by simp) (fun _ _ hf => .inl hf) rfl
  cases l with
  | deliver messages now storage =>
    rcases step_deliver hstep with rfl | ⟨elements, rfl, rfl⟩
    · exact (delivered _).cons rfl (by simp) (fun _ _ hf => .inl hf) rfl
    · exact carried_nextMessage (positioned_deliver _ hp) (running_deliver hp) (delivered _)
  | complete call result now storage =>
    obtain ⟨frame, -, rfl⟩ | ⟨frame, hf, ⟨-, -, rfl⟩ | ⟨m, hm, rfl⟩⟩ := step_complete hstep
    · exact h.lose call
    · refine h.cons rfl (by simp) (fun c f hc => ?_) rfl
      rw [World.awaitDirectMessage, Std.ExtTreeMap.getElem?_insert] at hc
      split at hc
      · rename_i heq
        rw [Std.LawfulEqCmp.compare_eq_iff_eq] at heq
        subst heq
        cases hc
        obtain ⟨herror, qm, hreads, hfixed⟩ := h.frames call frame hf.suspended
        have hlog : ∀ m, (w.awaitDirectMessage call m frame.rest).log =
            [.directMessage call frame.rest.length m.id] ++ w.log := fun _ => rfl
        exact .inr ⟨herror, qm, hreads.extend (hlog _), hfixed⟩
      · exact .inl hc
    · have hs := hp.suspended call frame hf.suspended
      exact carried_nextMessage (positioned_store (positioned_sent hp hs))
        (running_store (running_sent hs))
        (carried_sent hf.suspended (QueuedMessage.sendToDiscord_returned hm).1 h)
  | created call result =>
    rcases step_created hstep with rfl | rfl
    · exact h
    · exact h.lose call
  | answer n response =>
    simp only [step, Option.map_eq_some_iff] at hstep
    obtain ⟨r, -, rfl⟩ := hstep
    refine h.extend (answer_log w n r response) (fun e he c p m => ?_) (fun c k es he => ?_)
      (fun _ _ hf => .inl hf) (fun id m hm => ?_)
    · rcases mem_answerEvents he with ⟨m', rfl⟩ | rfl <;> simp
    · rcases mem_answerEvents he with ⟨m', he⟩ | he <;> cases he
    · change (w.cache.reported r.used response).cacheMap[id]? = some m at hm
      cases hacc : ProcessedMessageCache.accepted response with
      | false =>
        rw [ProcessedMessageCache.reported_of_not_accepted hacc] at hm
        exact h.cached id m hm
      | true =>
        rw [ProcessedMessageCache.getElem?_reported hacc] at hm
        split at hm
        · cases hm
        · exact h.cached id m hm

/-- **A message is sent, kept and reported as it was read.** -/
theorem carried {w : World} (hw : (system P).Reachable w) : Carried P w := by
  refine (hw.invariant (P := fun w => Positioned P w ∧ Carried P w) ⟨positioned_start, ?_⟩
    carried_preserved).2
  refine ⟨fun call frame hf => ?_, fun call position m hmem => ?_, fun id m hm => ?_,
    fun call n es hmem => ?_⟩
  · simp [system] at hf
  · cases hmem
  · simp [system] at hm
  · cases hmem

end Messages
