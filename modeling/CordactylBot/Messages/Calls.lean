import CordactylBot.Messages.System
import Mathlib.Logic.Relation

/-!
Where each call stands, and the induction rule this gives.

Calls are numbered in the order they start, and a call goes through its array from
the front, looking each element up or rejecting it. `Positioned` says so of a world:
a suspended call sits at an element of the array delivered to it and has touched
none behind it, and a call that has returned has handled each element once and, if
there were any, posted its report. `Running` describes the call that is in the
middle of a step.

* `positioned` — every reachable world is positioned.
* `step_moves` — every step is a chain of moves, each made in a world where the
  moving call is positioned.
* `MoveClosed.reachable`, `MoveClosed.run`, `MoveClosed.along` — an assertion that
  every move keeps holds in every reachable world, along every continuation of a
  run, and along every run whose steps meet the condition it was proved under.
-/

/-- The call an event belongs to. -/
def Event.call? : Event → Option Nat
  | .delivered call _ | .rejected call _ _ | .memberLookup call _ _ | .directMessage call _ _
  | .sent call _ _ | .reported call _ _ | .returned call | .escaped call _ => some call
  | .stored _ | .discarded _ | .answered _ _ | .acknowledged _ _ => none

/-- The element an event is about: its call and its position. -/
def Event.place? : Event → Option (Nat × Nat)
  | .rejected call position _ | .memberLookup call position _ | .directMessage call position _
  | .sent call position _ => some (call, position)
  | _ => none

/-- The event rejects the element or turns it into a message. -/
def Event.handles (call position : Nat) : Event → Bool
  | .rejected c p _ | .memberLookup c p _ => c = call && p = position
  | _ => false

theorem Event.call?_of_place? {e : Event} {call position : Nat}
    (h : e.place? = some (call, position)) : e.call? = some call := by
  cases e <;> simp_all [Event.place?, Event.call?]

theorem Event.place?_of_handles {e : Event} {call position : Nat}
    (h : e.handles call position = true) : e.place? = some (call, position) := by
  cases e <;> simp_all [Event.place?, Event.handles]

namespace Messages

open World

variable (P : Platform)

/-- Each element from `lo` to below `hi` has been handled, once. -/
def Handled (w : World) (call lo hi : Nat) : Prop :=
  ∀ position, lo ≤ position → position < hi → w.log.countP (Event.handles call position) = 1

/-- `call` is in the middle of a step with `elements` left. -/
structure Running (w : World) (call : Nat) (elements : List Json) : Prop where
  started : call < w.nextCall
  idle : w.calls[call]? = none
  active : .returned call ∉ w.log
  suffix : ∃ done, Event.delivered call (.array (done ++ elements)) ∈ w.log ∧
    Handled w call elements.length (done ++ elements).length
  ahead : ∀ e ∈ w.log, ∀ position, e.place? = some (call, position) → elements.length ≤ position

/-- `call` is suspended in `frame`, sending the message of an element delivered to it. -/
structure Suspended (w : World) (call : Nat) (frame : Frame) : Prop where
  started : call < w.nextCall
  active : .returned call ∉ w.log
  suffix : ∃ done element now storage m,
    Event.delivered call (.array (done ++ element :: frame.rest)) ∈ w.log ∧
      Handled w call frame.rest.length (done ++ element :: frame.rest).length ∧
      QueuedMessage.ofJson P now storage element = .ok m ∧ m.id = frame.message.id
  lookup : .memberLookup call frame.rest.length frame.message.id ∈ w.log
  ahead : ∀ e ∈ w.log, ∀ position, e.place? = some (call, position) →
    frame.rest.length ≤ position
  fresh : frame.awaiting = .memberLookup →
    ∀ id, .directMessage call frame.rest.length id ∉ w.log

/-- `call` has handled all of its elements and, if there were any, posted a report. -/
def Finished (w : World) (call : Nat) (elements : List Json) : Prop :=
  Handled w call 0 elements.length ∧
    (elements ≠ [] → ∃ n entries, .reported call n entries ∈ w.log)

/-- Every call is where its events say, and call numbers are used up in order. -/
structure Positioned (w : World) : Prop where
  bound : ∀ e ∈ w.log, ∀ call, e.call? = some call → call < w.nextCall
  unique : ∀ call messages messages', .delivered call messages ∈ w.log →
    .delivered call messages' ∈ w.log → messages = messages'
  suspended : ∀ (call : Nat) frame, w.calls[call]? = some frame → Suspended P w call frame
  finished : ∀ call elements, .returned call ∈ w.log → .delivered call (.array elements) ∈ w.log →
    Finished w call elements

variable {P}

/-! ### The moves keep positions -/

/-- Events that do not handle elements of the call leave what it has handled. -/
theorem Handled.extend {w w' : World} {call lo hi : Nat} {new : List Event}
    (h : Handled w call lo hi) (hlog : w'.log = new ++ w.log)
    (other : ∀ e ∈ new, ∀ position, e.handles call position = false) : Handled w' call lo hi := by
  intro position hlo hhi
  have none : new.countP (Event.handles call position) = 0 := by
    apply List.countP_eq_zero.mpr
    intro e he
    rw [other e he position]
    exact Bool.false_ne_true
  rw [hlog, List.countP_append, none, Nat.zero_add]
  exact h position hlo hhi

/-- One event handles the next element. -/
theorem Handled.next {w w' : World} {call lo hi : Nat} {e : Event} (h : Handled w call (lo + 1) hi)
    (ahead : ∀ e ∈ w.log, ∀ position, e.place? = some (call, position) → lo + 1 ≤ position)
    (hlog : w'.log = e :: w.log) (he : ∀ position, e.handles call position = decide (lo = position)) :
    Handled w' call lo hi := by
  intro position hlo hhi
  rw [hlog]
  by_cases heq : lo = position
  · subst heq
    have none : w.log.countP (Event.handles call lo) = 0 := by
      apply List.countP_eq_zero.mpr
      intro e' he' hhandles
      have := ahead e' he' lo (Event.place?_of_handles hhandles)
      omega
    rw [List.countP_cons_of_pos (by rw [he]; exact decide_eq_true rfl), none]
  · rw [List.countP_cons_of_neg (by rw [he]; simpa using heq)]
    exact h position (by omega) hhi

theorem handles_of_call {e : Event} {call : Nat} (h : e.call? ≠ some call) (position : Nat) :
    e.handles call position = false := by
  cases hh : e.handles call position with
  | false => rfl
  | true => exact absurd (Event.call?_of_place? (Event.place?_of_handles hh)) h

/-- Events of other calls leave a suspended call where it is. -/
theorem Suspended.extend {w w' : World} {call : Nat} {frame : Frame} {new : List Event}
    (h : Suspended P w call frame) (hnext : w.nextCall ≤ w'.nextCall)
    (hlog : w'.log = new ++ w.log) (others : ∀ e ∈ new, e.call? ≠ some call) :
    Suspended P w' call frame := by
  obtain ⟨hlt, hactive, ⟨done, element, now, storage, m, hdel, hhandled, hm⟩, hlook, hahead,
    hfresh⟩ := h
  have old : ∀ {e}, e.call? = some call → e ∈ w'.log → e ∈ w.log := by
    intro e hcall he
    rcases List.mem_append.mp (hlog ▸ he) with he | he
    · exact absurd hcall (others e he)
    · exact he
  have kept : ∀ {e}, e ∈ w.log → e ∈ w'.log := fun he => hlog ▸ List.mem_append_right _ he
  constructor
  · exact hlt.trans_le hnext
  · exact fun hret => hactive (old rfl hret)
  · exact ⟨done, element, now, storage, m, kept hdel,
      hhandled.extend hlog fun e he => handles_of_call (others e he), hm⟩
  · exact kept hlook
  · intro e he position hplace
    exact hahead e (old (Event.call?_of_place? hplace) he) position hplace
  · intro hawait id hmem
    exact hfresh hawait id (old rfl hmem)

theorem Finished.extend {w w' : World} {call : Nat} {elements : List Json} {new : List Event}
    (h : Finished w call elements) (hlog : w'.log = new ++ w.log)
    (others : ∀ e ∈ new, e.call? ≠ some call) : Finished w' call elements := by
  constructor
  · exact h.1.extend hlog fun e he => handles_of_call (others e he)
  · intro hne
    obtain ⟨n, entries, hrep⟩ := h.2 hne
    exact ⟨n, entries, hlog ▸ List.mem_append_right _ hrep⟩

/-- Events of no call leave a running call where it is. -/
theorem Running.extend {w w' : World} {call : Nat} {elements : List Json} {new : List Event}
    (h : Running w call elements) (hcalls : w'.calls = w.calls) (hnext : w'.nextCall = w.nextCall)
    (hlog : w'.log = new ++ w.log) (callless : ∀ e ∈ new, e.call? = none) :
    Running w' call elements := by
  have other : ∀ e ∈ new, e.call? ≠ some call := by
    intro e he
    rw [callless e he]
    exact nofun
  have old : ∀ {e}, e.call? = some call → e ∈ w'.log → e ∈ w.log := by
    intro e hcall he
    rcases List.mem_append.mp (hlog ▸ he) with he | he
    · exact absurd hcall (other e he)
    · exact he
  obtain ⟨hlt, hidle, hactive, ⟨done, hdel, hhandled⟩, hahead⟩ := h
  constructor
  · exact hnext ▸ hlt
  · exact hcalls ▸ hidle
  · exact fun hret => hactive (old rfl hret)
  · exact ⟨done, hlog ▸ List.mem_append_right _ hdel,
      hhandled.extend hlog fun e he => handles_of_call (other e he)⟩
  · intro e he position hplace
    exact hahead e (old (Event.call?_of_place? hplace) he) position hplace

/-- Events of no call keep positions. -/
theorem Positioned.callless {w w' : World} {new : List Event} (h : Positioned P w)
    (hlog : w'.log = new ++ w.log) (hcalls : w'.calls = w.calls)
    (hnext : w'.nextCall = w.nextCall) (callless : ∀ e ∈ new, e.call? = none) : Positioned P w' := by
  have other : ∀ e ∈ new, ∀ call, e.call? ≠ some call := by
    intro e he call
    rw [callless e he]
    exact nofun
  have old : ∀ {e call}, e.call? = some call → e ∈ w'.log → e ∈ w.log := by
    intro e call hcall he
    rcases List.mem_append.mp (hlog ▸ he) with he | he
    · exact absurd hcall (other e he call)
    · exact he
  constructor
  · intro e he call hcall
    exact hnext ▸ h.bound e (old hcall he) call hcall
  · intro call messages messages' hdel hdel'
    exact h.unique call messages messages' (old rfl hdel) (old rfl hdel')
  · intro call frame hf
    rw [hcalls] at hf
    exact (h.suspended call frame hf).extend hnext.ge hlog fun e he => other e he call
  · intro call elements hret hdel
    exact (h.finished call elements (old rfl hret) (old rfl hdel)).extend hlog fun e he =>
      other e he call

/-- A move of one call that has started and not returned. -/
theorem Positioned.move {w w' : World} {call : Nat} {new : List Event} (h : Positioned P w)
    (started : call < w.nextCall) (active : .returned call ∉ w.log)
    (hlog : w'.log = new ++ w.log) (hnext : w'.nextCall = w.nextCall)
    (own : ∀ e ∈ new, (e.call? = none ∨ e.call? = some call) ∧
      ∀ messages, e ≠ .delivered call messages)
    (others : ∀ c, c ≠ call → w'.calls[c]? = w.calls[c]?)
    (hsuspended : ∀ frame, w'.calls[call]? = some frame → Suspended P w' call frame)
    (hreturned : .returned call ∈ new → ∀ elements, .delivered call (.array elements) ∈ w.log →
      Finished w' call elements) : Positioned P w' := by
  have foreign : ∀ c, c ≠ call → ∀ e ∈ new, e.call? ≠ some c := by
    intro c hc e he hcall
    rcases (own e he).1 with hnone | hown
    · rw [hnone] at hcall
      cases hcall
    · rw [hown, Option.some.injEq] at hcall
      exact hc hcall.symm
  have delivered : ∀ {c messages}, .delivered c messages ∈ w'.log → .delivered c messages ∈ w.log := by
    intro c messages hdel
    rcases List.mem_append.mp (hlog ▸ hdel) with he | he
    · by_cases hc : c = call
      · subst hc
        exact absurd rfl ((own _ he).2 messages)
      · exact absurd rfl (foreign c hc _ he)
    · exact he
  constructor
  · intro e he c hc
    rw [hnext]
    rcases List.mem_append.mp (hlog ▸ he) with he | he
    · by_cases hne : c = call
      · exact hne ▸ started
      · exact absurd hc (foreign c hne e he)
    · exact h.bound e he c hc
  · intro c messages messages' hdel hdel'
    exact h.unique c messages messages' (delivered hdel) (delivered hdel')
  · intro c frame hf
    by_cases hc : c = call
    · subst hc
      exact hsuspended frame hf
    · rw [others c hc] at hf
      exact (h.suspended c frame hf).extend hnext.ge hlog (foreign c hc)
  · intro c elements hret hdel
    by_cases hc : c = call
    · subst hc
      rcases List.mem_append.mp (hlog ▸ hret) with he | he
      · exact hreturned he elements (delivered hdel)
      · exact absurd he active
    · have hold : Event.returned c ∈ w.log := by
        rcases List.mem_append.mp (hlog ▸ hret) with he | he
        · exact absurd rfl (foreign c hc _ he)
        · exact he
      exact (h.finished c elements hold (delivered hdel)).extend hlog (foreign c hc)

theorem idle_nextCall {w : World} (h : Positioned P w) : w.calls[w.nextCall]? = none := by
  cases hf : w.calls[w.nextCall]? with
  | none => rfl
  | some frame => exact absurd (h.suspended _ frame hf).started (Nat.lt_irrefl _)

/-- Events of the next call are still to come. -/
theorem foreign_nextCall {w : World} (h : Positioned P w) {e : Event} (he : e ∈ w.log) :
    e.call? ≠ some w.nextCall :=
  fun hcall => Nat.lt_irrefl _ (h.bound e he _ hcall)

theorem positioned_deliver {w : World} (messages : Json) (h : Positioned P w) :
    Positioned P (w.deliver messages) := by
  have hlog : (w.deliver messages).log = [.delivered w.nextCall messages] ++ w.log := rfl
  have foreign : ∀ call, call < w.nextCall →
      ∀ e ∈ [Event.delivered w.nextCall messages], e.call? ≠ some call := by
    intro call hlt e he hcall
    rw [List.mem_singleton.mp he] at hcall
    cases hcall
    exact Nat.lt_irrefl _ hlt
  constructor
  · intro e he call hcall
    rcases List.mem_cons.mp he with rfl | he
    · cases hcall
      exact Nat.lt_succ_self _
    · exact Nat.lt_succ_of_lt (h.bound e he call hcall)
  · intro call m m' hm hm'
    rcases List.mem_cons.mp hm with hm | hm
    · rcases List.mem_cons.mp hm' with hm' | hm'
      · cases hm
        cases hm'
        rfl
      · cases hm
        exact absurd rfl (foreign_nextCall h hm')
    · rcases List.mem_cons.mp hm' with hm' | hm'
      · cases hm'
        exact absurd rfl (foreign_nextCall h hm)
      · exact h.unique call m m' hm hm'
  · intro call frame hf
    have hs := h.suspended call frame hf
    exact hs.extend (Nat.le_succ _) hlog (foreign call hs.started)
  · intro call elements hret hdel
    rcases List.mem_cons.mp hret with hret | hret
    · cases hret
    have hlt := h.bound _ hret call rfl
    rcases List.mem_cons.mp hdel with hdel | hdel
    · cases hdel
      exact absurd hlt (Nat.lt_irrefl _)
    · exact (h.finished call elements hret hdel).extend hlog (foreign call hlt)

theorem running_deliver {w : World} {elements : List Json} (h : Positioned P w) :
    Running (w.deliver (.array elements)) w.nextCall elements := by
  constructor
  · exact Nat.lt_succ_self _
  · exact idle_nextCall h
  · intro hret
    rcases List.mem_cons.mp hret with hret | hret
    · cases hret
    · exact foreign_nextCall h hret rfl
  · refine ⟨[], List.mem_cons_self, fun position hlo hhi => ?_⟩
    exact absurd hhi (Nat.not_lt.mpr hlo)
  · intro e he position hplace
    rcases List.mem_cons.mp he with rfl | he
    · cases hplace
    · exact absurd (Event.call?_of_place? hplace) (foreign_nextCall h he)

/-- A call that logs something else has not returned. -/
theorem active_cons {call : Nat} {e : Event} {log : List Event} (he : e ≠ .returned call)
    (h : .returned call ∉ log) : .returned call ∉ e :: log := by
  intro hret
  rcases List.mem_cons.mp hret with rfl | hret
  · exact he rfl
  · exact h hret

/-- After an event about element `n`, the call has touched none behind it. -/
theorem ahead_cons {call n lo : Nat} {e : Event} {log : List Event}
    (hplace : e.place? = some (call, n)) (hle : n ≤ lo)
    (ahead : ∀ e ∈ log, ∀ position, e.place? = some (call, position) → lo ≤ position) :
    ∀ e' ∈ e :: log, ∀ position, e'.place? = some (call, position) → n ≤ position := by
  intro e' he position hposition
  rcases List.mem_cons.mp he with rfl | he
  · rw [hplace] at hposition
    cases hposition
    exact Nat.le_refl _
  · exact Nat.le_trans hle (ahead e' he position hposition)

/-- The running call handles its next element and goes on. -/
theorem Running.next {w v : World} {call : Nat} {message : Json} {rest : List Json} {e : Event}
    (h : Running w call (message :: rest)) (hlog : v.log = e :: w.log)
    (he : ∀ position, e.handles call position = decide (rest.length = position)) :
    ∃ done, Event.delivered call (.array (done ++ message :: rest)) ∈ v.log ∧
      Handled v call rest.length (done ++ message :: rest).length := by
  obtain ⟨done, hdel, hhandled⟩ := h.suffix
  exact ⟨done, hlog ▸ List.mem_cons_of_mem _ hdel, hhandled.next h.ahead hlog he⟩

theorem running_rejected {w : World} {call : Nat} {message : Json} {rest : List Json}
    {what : String} (h : Running w call (message :: rest)) :
    Running (w.emit (.rejected call rest.length what)) call rest := by
  constructor
  · exact h.started
  · exact h.idle
  · exact active_cons (by simp) h.active
  · obtain ⟨done, hdel, hhandled⟩ :=
      h.next (v := w.emit (.rejected call rest.length what)) rfl (by simp [Event.handles])
    refine ⟨done ++ [message], ?_, ?_⟩
    · rw [List.append_assoc]
      exact hdel
    · rw [List.append_assoc]
      exact hhandled
  · exact ahead_cons rfl (Nat.le_succ _) h.ahead

theorem positioned_rejected {w : World} {call position : Nat} {elements : List Json}
    {what : String} (h : Positioned P w) (hr : Running w call elements) :
    Positioned P (w.emit (.rejected call position what)) := by
  have hlog : (w.emit (.rejected call position what)).log =
      [.rejected call position what] ++ w.log := rfl
  apply h.move hr.started hr.active hlog rfl
  · simp [Event.call?]
  · exact fun _ _ => rfl
  · intro frame hf
    rw [World.emit, hr.idle] at hf
    cases hf
  · simp

theorem suspended_awaitMember {w : World} {call : Nat} {message : Json} {rest : List Json}
    {now : Int} {storage : UInt64} {m : QueuedMessage} (hr : Running w call (message :: rest))
    (hm : QueuedMessage.ofJson P now storage message = .ok m) :
    Suspended P (w.awaitMember call m rest) call ⟨m, .memberLookup, rest⟩ := by
  obtain ⟨done, hdel, hhandled⟩ :=
    hr.next (v := w.awaitMember call m rest) rfl (by simp [Event.handles])
  constructor
  · exact hr.started
  · exact active_cons (by simp) hr.active
  · exact ⟨done, message, now, storage, m, hdel, hhandled, hm, rfl⟩
  · exact List.mem_cons_self
  · exact ahead_cons rfl (Nat.le_succ _) hr.ahead
  · intro _ id hmem
    rcases List.mem_cons.mp hmem with he | he
    · cases he
    · exact Nat.lt_irrefl _ (hr.ahead _ he rest.length rfl)

theorem positioned_awaitMember {w : World} {call : Nat} {message : Json} {rest : List Json}
    {now : Int} {storage : UInt64} {m : QueuedMessage} (h : Positioned P w)
    (hr : Running w call (message :: rest))
    (hm : QueuedMessage.ofJson P now storage message = .ok m) :
    Positioned P (w.awaitMember call m rest) := by
  have hlog : (w.awaitMember call m rest).log = [.memberLookup call rest.length m.id] ++ w.log := rfl
  apply h.move hr.started hr.active hlog rfl
  · simp [Event.call?]
  · intro c hc
    simp [World.awaitMember, Std.ExtTreeMap.getElem?_insert, Ne.symm hc]
  · intro frame hf
    simp only [World.awaitMember, Std.ExtTreeMap.getElem?_insert_self, Option.some.injEq] at hf
    exact hf ▸ suspended_awaitMember hr hm
  · simp

theorem suspended_awaitDirectMessage {w : World} {call : Nat} {frame : Frame} {m : QueuedMessage}
    (h : Suspended P w call frame) (hid : m.id = frame.message.id) :
    Suspended P (w.awaitDirectMessage call m frame.rest) call
      ⟨m, .directMessage, frame.rest⟩ := by
  obtain ⟨hlt, hactive, ⟨done, element, now, storage, q, hdel, hhandled, hq, heq⟩, hlook, hahead,
    -⟩ := h
  have hlog : (w.awaitDirectMessage call m frame.rest).log =
      [.directMessage call frame.rest.length m.id] ++ w.log := rfl
  constructor
  · exact hlt
  · exact active_cons (by simp) hactive
  · exact ⟨done, element, now, storage, q, List.mem_cons_of_mem _ hdel,
      hhandled.extend hlog (by simp [Event.handles]), hq, heq.trans hid.symm⟩
  · exact List.mem_cons_of_mem _ (hid ▸ hlook)
  · exact ahead_cons rfl (Nat.le_refl _) hahead
  · exact fun hawait => nomatch hawait

theorem positioned_awaitDirectMessage {w : World} {call : Nat} {frame : Frame} {m : QueuedMessage}
    (h : Positioned P w) (hf : w.calls[call]? = some frame) (hid : m.id = frame.message.id) :
    Positioned P (w.awaitDirectMessage call m frame.rest) := by
  have hs := h.suspended call frame hf
  have hlog : (w.awaitDirectMessage call m frame.rest).log =
      [.directMessage call frame.rest.length m.id] ++ w.log := rfl
  apply h.move hs.started hs.active hlog rfl
  · simp [Event.call?]
  · intro c hc
    simp [World.awaitDirectMessage, Std.ExtTreeMap.getElem?_insert, Ne.symm hc]
  · intro f hc
    simp only [World.awaitDirectMessage, Std.ExtTreeMap.getElem?_insert_self,
      Option.some.injEq] at hc
    exact hc ▸ suspended_awaitDirectMessage hs hid
  · simp

theorem running_sent {w : World} {call : Nat} {frame : Frame} {m : QueuedMessage}
    (h : Suspended P w call frame) :
    Running (w.sent call frame.rest.length m) call frame.rest := by
  obtain ⟨hlt, hactive, ⟨done, element, now, storage, q, hdel, hhandled, -⟩, -, hahead, -⟩ := h
  have hlog : (w.sent call frame.rest.length m).log =
      [.sent call frame.rest.length m] ++ w.log := rfl
  constructor
  · exact hlt
  · simp [World.sent]
  · exact active_cons (by simp) hactive
  · refine ⟨done ++ [element], ?_, ?_⟩
    · rw [List.append_assoc]
      exact List.mem_cons_of_mem _ hdel
    · rw [List.append_assoc]
      exact hhandled.extend hlog (by simp [Event.handles])
  · exact ahead_cons rfl (Nat.le_refl _) hahead

theorem positioned_sent {w : World} {call : Nat} {frame : Frame} {m : QueuedMessage}
    (h : Positioned P w) (hs : Suspended P w call frame) :
    Positioned P (w.sent call frame.rest.length m) := by
  have hlog : (w.sent call frame.rest.length m).log =
      [.sent call frame.rest.length m] ++ w.log := rfl
  apply h.move hs.started hs.active hlog rfl
  · simp [Event.call?]
  · intro c hc
    simp [World.sent, Std.ExtTreeMap.getElem?_erase, Ne.symm hc]
  · intro f hf
    simp [World.sent] at hf
  · simp

/-- `store` adds at most a `stored` event. -/
theorem store_log (w : World) (m : QueuedMessage) :
    ∃ new, (w.store m).log = new ++ w.log ∧ ∀ e ∈ new, e = .stored m := by
  unfold World.store
  dsimp only
  split
  · exact ⟨[.stored m], rfl, by simp⟩
  · exact ⟨[], rfl, by simp⟩

/-- What the end of a send logs. -/
theorem sent_log (w : World) (call position : Nat) (m : QueuedMessage) :
    ∃ new, ((w.sent call position m).store m).log = new ++ w.log ∧
      ∀ e ∈ new, e = .stored m ∨ e = .sent call position m := by
  obtain ⟨new, hlog, hnew⟩ := store_log (w.sent call position m) m
  refine ⟨new ++ [.sent call position m], ?_, fun e he => ?_⟩
  · rw [hlog, List.append_assoc]
    rfl
  · exact (List.mem_append.mp he).imp (hnew e) List.mem_singleton.mp

theorem positioned_store {w : World} {m : QueuedMessage} (h : Positioned P w) :
    Positioned P (w.store m) := by
  obtain ⟨new, hlog, hnew⟩ := store_log w m
  exact h.callless hlog rfl rfl fun e he => hnew e he ▸ rfl

theorem running_store {w : World} {m : QueuedMessage} {call : Nat} {elements : List Json}
    (h : Running w call elements) : Running (w.store m) call elements := by
  obtain ⟨new, hlog, hnew⟩ := store_log w m
  exact h.extend rfl rfl hlog fun e he => hnew e he ▸ rfl

/-- What the end of a batch adds to the log: the sweep, the report, the return. -/
def finishEvents (w : World) (call : Nat) : List Event :=
  .returned call :: .reported call w.nextReport w.sweep.cache.snapshot ::
    w.cache.garbage.map .discarded

theorem finish_log (w : World) (call : Nat) (body : Json) :
    ((w.sweep.request call body).emit (.returned call)).log = finishEvents w call ++ w.log := rfl

theorem mem_finishEvents {w : World} {call : Nat} {e : Event} (h : e ∈ finishEvents w call) :
    e = .returned call ∨ e = .reported call w.nextReport w.sweep.cache.snapshot ∨
      ∃ m ∈ w.cache.garbage, e = .discarded m := by
  simpa [finishEvents, eq_comm] using h

theorem positioned_finish {w : World} {call : Nat} (body : Json) (h : Positioned P w)
    (hr : Running w call []) :
    Positioned P ((w.sweep.request call body).emit (.returned call)) := by
  have hlog := finish_log w call body
  apply h.move hr.started hr.active hlog rfl
  · intro e he
    rcases mem_finishEvents he with rfl | rfl | ⟨m, -, rfl⟩ <;> simp [Event.call?]
  · exact fun _ _ => rfl
  · intro frame hf
    have hidle : w.calls[call]? = some frame := hf
    rw [hr.idle] at hidle
    cases hidle
  · intro _ elements hdel
    obtain ⟨done, hdone, hhandled⟩ := hr.suffix
    rw [List.append_nil] at hdone hhandled
    obtain rfl := Json.array.inj (h.unique call _ _ hdel hdone)
    constructor
    · apply hhandled.extend hlog
      intro e he position
      rcases mem_finishEvents he with rfl | rfl | ⟨m, -, rfl⟩ <;> rfl
    · intro _
      exact ⟨_, _, List.mem_cons_of_mem _ List.mem_cons_self⟩

theorem answer_log (w : World) (n : Nat) (r : Report) (response : HttpRequestCompletion) :
    (w.answer n r response).log =
      ((w.acknowledgedBy r response).map (.acknowledged n) ++ [.answered n response]) ++ w.log :=
  List.append_cons ..

theorem mem_answerEvents {w : World} {n : Nat} {r : Report} {response : HttpRequestCompletion}
    {e : Event}
    (h : e ∈ (w.acknowledgedBy r response).map (.acknowledged n) ++ [.answered n response]) :
    (∃ m, e = .acknowledged n m) ∨ e = .answered n response := by
  rcases List.mem_append.mp h with h | h
  · obtain ⟨m, -, rfl⟩ := List.mem_map.mp h
    exact .inl ⟨m, rfl⟩
  · exact .inr (List.mem_singleton.mp h)

theorem positioned_answer {w : World} {n : Nat} {r : Report} {response : HttpRequestCompletion}
    (h : Positioned P w) : Positioned P (w.answer n r response) := by
  apply h.callless (answer_log w n r response) rfl rfl
  intro e he
  rcases mem_answerEvents he with ⟨m, rfl⟩ | rfl <;> rfl

/-- A call that is lost has done nothing. -/
theorem lose_log (w : World) (call : Nat) : (w.lose call).log = [] ++ w.log := rfl

theorem positioned_lose {w : World} (call : Nat) (h : Positioned P w) :
    Positioned P (w.lose call) :=
  h.callless (lose_log w call) rfl rfl fun _ he => absurd he List.not_mem_nil

theorem positioned_skip {w : World} {messages : Json} (h : Positioned P w)
    (empty : ∀ elements, messages = .array elements → elements = []) :
    Positioned P ((w.deliver messages).emit (.returned w.nextCall)) := by
  have hlog : ((w.deliver messages).emit (.returned w.nextCall)).log =
      [.returned w.nextCall] ++ (w.deliver messages).log := rfl
  have hactive : .returned w.nextCall ∉ (w.deliver messages).log := by
    intro hret
    rcases List.mem_cons.mp hret with hret | hret
    · cases hret
    · exact foreign_nextCall h hret rfl
  apply (positioned_deliver messages h).move (Nat.lt_succ_self _) hactive hlog rfl
  · simp [Event.call?]
  · exact fun _ _ => rfl
  · intro frame hf
    have hidle : w.calls[w.nextCall]? = some frame := hf
    rw [idle_nextCall h] at hidle
    cases hidle
  · intro _ elements hdel
    have hempty : elements = [] := by
      rcases List.mem_cons.mp hdel with hdel | hdel
      · injection hdel with _ hmessages
        exact empty elements hmessages.symm
      · exact absurd rfl (foreign_nextCall h hdel)
    subst hempty
    exact ⟨fun position _ hhi => absurd hhi (Nat.not_lt_zero position), fun hne => absurd rfl hne⟩

/-! ### Moves -/

/-- The moves the steps that meet the condition `Q` are made of, each in a world
where the moving call is positioned. -/
inductive Move (P : Platform) (Q : World → Label → Prop) : World → World → Prop where
  /-- a call starts -/
  | deliver {w : World} (messages : Json) (hp : Positioned P w) : Move P Q w (w.deliver messages)
  /-- a call that has just started, but not on a non-empty array, returns -/
  | skip {w : World} {messages : Json} (hp : Positioned P w)
      (empty : ∀ elements, messages = .array elements → elements = []) :
      Move P Q (w.deliver messages) ((w.deliver messages).emit (.returned w.nextCall))
  /-- the constructor rejects the next element -/
  | rejected {w : World} {call : Nat} {message : Json} {rest : List Json} {now : Int}
      {storage : UInt64} {e : Exception} (hr : Running w call (message :: rest))
      (he : QueuedMessage.ofJson P now storage message = .error e) :
      Move P Q w (w.emit (.rejected call rest.length e.what))
  /-- the next element becomes a message, and its member is looked up -/
  | awaitMember {w : World} {call : Nat} {message : Json} {rest : List Json} {now : Int}
      {storage : UInt64} {m : QueuedMessage} (hp : Positioned P w)
      (hr : Running w call (message :: rest))
      (hm : QueuedMessage.ofJson P now storage message = .ok m) :
      Move P Q w (w.awaitMember call m rest)
  /-- the member was found, and the message is sent -/
  | awaitDirectMessage {w : World} {call : Nat} {frame : Frame} {m : QueuedMessage}
      (hp : Positioned P w) (hf : w.calls[call]? = some frame)
      (hawait : frame.awaiting = .memberLookup) (hid : m.id = frame.message.id)
      (htries : m.tries = frame.message.tries) : Move P Q w (w.awaitDirectMessage call m frame.rest)
  /-- a send completes and its message is stored -/
  | sent {w : World} {call : Nat} {result : Answer} {now : Int}
      {storage : Nat → UInt64} {frame : Frame} {m : QueuedMessage}
      (hq : Q w (.complete call result now storage)) (hp : Positioned P w)
      (hf : Taken P w call result frame)
      (hsend : frame.message.sendToDiscord P now frame.awaiting (P.httpInfo result) = .returned m)
      (hid : m.id = frame.message.id) (htries : m.tries = frame.message.tries) :
      Move P Q w ((w.sent call frame.rest.length m).store m)
  /-- a batch ends with a sweep and a report -/
  | finish {w : World} {call : Nat} (now : Int) (hr : Running w call []) :
      Move P Q w ((w.sweep.request call (.object [("messages",
        .array (w.sweep.cache.snapshot.map (ProcessedMessageCache.entryJson P now)))])).emit
          (.returned call))
  /-- a report is answered -/
  | answer {w : World} {n : Nat} {r : Report} {response : HttpRequestCompletion}
      (hq : Q w (.answer n response)) (hr : w.reports[n]? = some r) :
      Move P Q w (w.answer n r response)
  /-- an answer cannot be read -/
  | lose {w : World} {call : Nat} {frame : Frame} {l : Label} (hq : Q w l)
      (hu : Unread P w call frame l) : Move P Q w (w.lose call)

theorem Move.mono {Q Q' : World → Label → Prop} (imp : ∀ w l, Q w l → Q' w l) {w w' : World}
    (h : Move P Q w w') : Move P Q' w w' := by
  cases h with
  | deliver messages hp => exact .deliver messages hp
  | skip hp empty => exact .skip hp empty
  | rejected hr he => exact .rejected hr he
  | awaitMember hp hr hm => exact .awaitMember hp hr hm
  | awaitDirectMessage hp hf hawait hid htries => exact .awaitDirectMessage hp hf hawait hid htries
  | sent hq hp hf hsend hid htries => exact .sent (imp _ _ hq) hp hf hsend hid htries
  | finish now hr => exact .finish now hr
  | answer hq hr => exact .answer (imp _ _ hq) hr
  | lose hq hu => exact .lose (imp _ _ hq) hu

/-- A running call goes on by moves. -/
theorem nextMessage_moves {Q : World → Label → Prop} {now : Int} {storage : Nat → UInt64}
    {call : Nat} {elements : List Json} {w₀ w : World} (hp : Positioned P w)
    (hr : Running w call elements) (hw : Relation.ReflTransGen (Move P Q) w₀ w) :
    Positioned P (w.nextMessage P now storage call elements) ∧
      Relation.ReflTransGen (Move P Q) w₀ (w.nextMessage P now storage call elements) := by
  refine nextMessage_rule (I := fun rest w => Positioned P w ∧ Running w call rest ∧
      Relation.ReflTransGen (Move P Q) w₀ w)
    (J := fun w => Positioned P w ∧ Relation.ReflTransGen (Move P Q) w₀ w) ?_ ?_ ?_
    elements w ⟨hp, hr, hw⟩
  · rintro message rest w e he ⟨hp, hr, hw⟩
    exact ⟨positioned_rejected hp hr, running_rejected hr, hw.tail (.rejected hr he)⟩
  · rintro message rest w m hm ⟨hp, hr, hw⟩
    exact ⟨positioned_awaitMember hp hr hm, hw.tail (.awaitMember hp hr hm)⟩
  · rintro w ⟨hp, hr, hw⟩
    rw [finishBatch_eq]
    exact ⟨positioned_finish _ hp hr, hw.tail (.finish now hr)⟩

/-- **Every step is a chain of moves.** -/
theorem step_moves {Q : World → Label → Prop} {w w' : World} {l : Label} (hp : Positioned P w)
    (hstep : step P w l = some w') (hq : Q w l) :
    Positioned P w' ∧ Relation.ReflTransGen (Move P Q) w w' := by
  rcases step_cases hstep with ⟨messages, _, _, rfl, rfl, hempty⟩ |
    ⟨elements, now, storage, rfl, -, rfl⟩ |
    ⟨call, _, _, _, frame, m, rfl, hf, hawait, hid, htries, rfl⟩ |
    ⟨call, result, now, storage, frame, m, rfl, hf, hsend, hid, htries, rfl⟩ |
    ⟨n, response, r, rfl, hr, rfl⟩ | ⟨call, frame, hu, rfl⟩ | ⟨call, result, rfl, rfl⟩
  · exact ⟨positioned_skip hp hempty, .tail (.single (.deliver messages hp)) (.skip hp hempty)⟩
  · exact nextMessage_moves (positioned_deliver _ hp) (running_deliver hp) (.single (.deliver _ hp))
  · exact ⟨positioned_awaitDirectMessage hp hf.suspended hid,
      .single (.awaitDirectMessage hp hf.suspended hawait hid htries)⟩
  · have hs := hp.suspended call frame hf.suspended
    exact nextMessage_moves (positioned_store (positioned_sent hp hs)) (running_store (running_sent hs))
      (.single (.sent hq hp hf hsend hid htries))
  · exact ⟨positioned_answer hp, .single (.answer hq hr)⟩
  · exact ⟨positioned_lose call hp, .single (.lose hq hu)⟩
  · exact ⟨hp, .refl⟩

/-! ### The induction rule -/

/-- An assertion kept by every move. -/
def MoveClosed (P : Platform) (Q : World → Label → Prop) (I : World → Prop) : Prop :=
  ∀ ⦃w w'⦄, Move P Q w w' → I w → I w'

/-- An assertion kept by every move under an assertion that is kept anyway. -/
theorem MoveClosed.under {Q : World → Label → Prop} {J I : World → Prop}
    (hJ : MoveClosed P (fun _ _ => True) J) (hI : ∀ ⦃w w'⦄, Move P Q w w' → J w → I w → I w') :
    MoveClosed P Q fun w => J w ∧ I w :=
  fun _ _ move h => ⟨hJ (move.mono fun _ _ _ => trivial) h.1, hI move h.1 h.2⟩

theorem MoveClosed.moves {Q : World → Label → Prop} {I : World → Prop} (h : MoveClosed P Q I)
    {w w' : World} (hw : I w) (moves : Relation.ReflTransGen (Move P Q) w w') : I w' := by
  induction moves with
  | refl => exact hw
  | tail _ move ih => exact h move ih

theorem positioned_start : Positioned P (system P).start where
  bound e he := by cases he
  unique call messages messages' h := by cases h
  suspended call frame h := by simp [system] at h
  finished call elements h := by cases h

theorem positioned {w : World} (hw : (system P).Reachable w) : Positioned P w :=
  hw.invariant positioned_start fun _ _ _ hp hstep =>
    (step_moves (Q := fun _ _ => True) hp hstep trivial).1

/-- **The invariant rule for runs whose steps meet the condition.** -/
theorem MoveClosed.along {Q : World → Label → Prop} {I : World → Prop} (h : MoveClosed P Q I)
    (start : I (system P).start) {labels : List Label} {w : World}
    (along : (system P).Along (fun w l _ => Q w l) (system P).start labels)
    (hrun : (system P).run (system P).start labels = some w) : I w := by
  refine (along.invariant (P := fun w => Positioned P w ∧ I w) ?_ ⟨positioned_start, start⟩ hrun).2
  intro w l w' hw hstep hq
  obtain ⟨hp, moves⟩ := step_moves hw.1 hstep hq
  exact ⟨hp, h.moves hw.2 moves⟩

/-- **The invariant rule for continuations of runs.** -/
theorem MoveClosed.run {I : World → Prop} (h : MoveClosed P (fun _ _ => True) I) {w w' : World}
    (hw : (system P).Reachable w) (hI : I w) {labels : List Label}
    (hrun : (system P).run w labels = some w') : I w' := by
  have preserved : (system P).Preserved fun w => Positioned P w ∧ I w := by
    intro w l w' hw hstep
    obtain ⟨hp, moves⟩ := step_moves (Q := fun _ _ => True) hw.1 hstep trivial
    exact ⟨hp, h.moves hw.2 moves⟩
  exact (preserved.run ⟨positioned hw, hI⟩ hrun).2

/-- **The invariant rule for all runs.** -/
theorem MoveClosed.reachable {I : World → Prop} (h : MoveClosed P (fun _ _ => True) I)
    (start : I (system P).start) {w : World} (hw : (system P).Reachable w) : I w := by
  obtain ⟨labels, hrun⟩ := hw
  exact h.run ⟨[], rfl⟩ start hrun

end Messages
