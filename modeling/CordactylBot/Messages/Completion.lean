import CordactylBot.Messages.Delivery

/-!
Calls run to their end.

Every completion a suspended call waits for takes it on, to its next element at the
latest when its send is over, so a call on `n` elements returns after at most `2 * n`
completions, in whatever order they arrive among everything else (`run_progress`),
unless one of them cannot be read: then it waits for ever (`lost_stays`). Nothing it
does on the way throws (`no_escape`): what the constructor throws is caught and logged
with the element (`rejected_listed`).
-/

namespace Messages

open Dpp World

variable {P : Platform}

/-! ### Nothing escapes -/

/-- No exception has left a call. -/
def NoEscape (w : World) : Prop :=
  ∀ call e, .escaped call e ∉ w.log

/-- A rejected element was delivered, and the text logged is the constructor's. -/
def RejectedListed (P : Platform) (w : World) : Prop :=
  ∀ call position what, .rejected call position what ∈ w.log →
    ∃ done element rest now storage e, .delivered call (.array (done ++ element :: rest)) ∈ w.log ∧
      rest.length = position ∧ QueuedMessage.ofJson P now storage element = .error e ∧ what = e.what

/-- Nothing has escaped and every rejection is accounted for. -/
structure Contained (P : Platform) (w : World) : Prop where
  noEscape : NoEscape w
  rejected : RejectedListed P w

theorem Contained.extend {w w' : World} {new : List Event} (h : Contained P w)
    (hlog : w'.log = new ++ w.log)
    (other : ∀ e ∈ new, (∀ call x, e ≠ .escaped call x) ∧
      ∀ call position what, e ≠ .rejected call position what) : Contained P w' := by
  constructor
  · intro call e he
    rcases List.mem_append.mp (hlog ▸ he) with he | he
    · exact (other _ he).1 call e rfl
    · exact h.noEscape call e he
  · intro call position what he
    rcases List.mem_append.mp (hlog ▸ he) with he | he
    · exact absurd rfl ((other _ he).2 call position what)
    · obtain ⟨done, element, rest, now, storage, e, hdel, hrest⟩ := h.rejected call position what he
      exact ⟨done, element, rest, now, storage, e, hlog ▸ List.mem_append_right _ hdel, hrest⟩

theorem Contained.cons {w w' : World} {e : Event} (h : Contained P w) (hlog : w'.log = e :: w.log)
    (other : (∀ call x, e ≠ .escaped call x) ∧
      ∀ call position what, e ≠ .rejected call position what) : Contained P w' := by
  have hlog : w'.log = [e] ++ w.log := hlog
  exact h.extend hlog fun e' he' => List.mem_singleton.mp he' ▸ other

theorem contained_closed : MoveClosed P (fun _ _ => True) (Contained P) := by
  intro w w' move h
  cases move with
  | deliver messages hp => exact h.cons rfl (by simp)
  | skip hp empty => exact h.cons rfl (by simp)
  | @rejected _ call message rest now storage e hr he =>
    obtain ⟨done, hdel, -⟩ := hr.suffix
    constructor
    · intro c x hx
      rcases List.mem_cons.mp hx with hx | hx
      · cases hx
      · exact h.noEscape c x hx
    · intro c position what hmem
      rcases List.mem_cons.mp hmem with hmem | hmem
      · cases hmem
        exact ⟨done, message, rest, now, storage, e, List.mem_cons_of_mem _ hdel, rfl, he, rfl⟩
      · obtain ⟨d, element, r, n, s, x, hd, hrest⟩ := h.rejected c position what hmem
        exact ⟨d, element, r, n, s, x, List.mem_cons_of_mem _ hd, hrest⟩
  | awaitMember hp hr hm => exact h.cons rfl (by simp)
  | awaitDirectMessage hp hf hawait hid htries => exact h.cons rfl (by simp)
  | @sent _ call _ _ _ frame m hq hp hf hsend hid htries =>
    obtain ⟨new, hlog, hnew⟩ := store_log (w.sent call frame.rest.length m) m
    have sent : Contained P (w.sent call frame.rest.length m) := h.cons rfl (by simp)
    apply sent.extend hlog
    intro e he
    rw [hnew e he]
    simp
  | finish now hr =>
    apply h.extend (finish_log w _ _)
    intro e he
    rcases mem_finishEvents he with rfl | rfl | ⟨m, -, rfl⟩ <;> simp
  | answer hq hr =>
    apply h.extend (answer_log w _ _ _)
    intro e he
    rcases mem_answerEvents he with ⟨m, rfl⟩ | rfl <;> simp
  | lose hq hu => exact h.extend (lose_log w _) (by simp)

theorem contained {w : World} (hw : (system P).Reachable w) : Contained P w := by
  apply contained_closed.reachable _ hw
  constructor
  · intro call e he
    cases he
  · intro call position what he
    cases he

theorem no_escape {w : World} (hw : (system P).Reachable w) : NoEscape w :=
  (contained hw).noEscape

theorem rejected_listed {w : World} (hw : (system P).Reachable w) : RejectedListed P w :=
  (contained hw).rejected

/-! ### Every completion takes a call on -/

/-- The completions a suspended call can still be taken on by. -/
def remaining (w : World) (call : Nat) : Nat :=
  match w.waiting call with
  | none => 0
  | some frame =>
      2 * frame.rest.length +
        match frame.awaiting with
        | .memberLookup => 2
        | .directMessage => 1

theorem remaining_of_idle {w : World} {call : Nat} (h : w.calls[call]? = none) :
    remaining w call = 0 := by
  simp [remaining, World.waiting, h]

theorem remaining_of_lost {w : World} {call : Nat} (h : call ∈ w.lost) : remaining w call = 0 := by
  simp [remaining, World.waiting, h]

/-- What a suspended call waits for, lost or not. -/
theorem remaining_le {w : World} {call : Nat} {frame : Frame} (h : w.calls[call]? = some frame) :
    remaining w call ≤ 2 * frame.rest.length +
      match frame.awaiting with
      | .memberLookup => 2
      | .directMessage => 1 := by
  by_cases hlost : call ∈ w.lost
  · rw [remaining_of_lost hlost]
    exact Nat.zero_le _
  · simp [remaining, World.waiting, hlost, h]

theorem remaining_pos {w : World} {call : Nat} {frame : Frame} (h : w.waiting call = some frame) :
    2 * frame.rest.length + 1 ≤ remaining w call := by
  simp only [remaining, h]
  split <;> omega

/-- Between steps, a call that has started is suspended or has returned. -/
def Settled (w : World) (call : Nat) : Prop :=
  (∃ frame, w.calls[call]? = some frame) ∨ .returned call ∈ w.log

/-- Where a step in which `call` ran with at most `n` elements left it. -/
structure Resumed (w w' : World) (call n : Nat) : Prop where
  others : ∀ c, c ≠ call → w'.calls[c]? = w.calls[c]?
  lost : w'.lost = w.lost
  next : w'.nextCall = w.nextCall
  log : ∃ new, w'.log = new ++ w.log
  settled : Settled w' call
  remaining : remaining w' call ≤ 2 * n

theorem nextMessage_resumed (now : Int) (storage : Nat → UInt64) {call : Nat}
    (elements : List Json) {w : World} (hidle : w.calls[call]? = none) :
    Resumed w (w.nextMessage P now storage call elements) call elements.length := by
  refine nextMessage_rule (I := fun rest w₁ => (w₁.calls = w.calls ∧ w₁.lost = w.lost ∧
      w₁.nextCall = w.nextCall) ∧ (∃ new, w₁.log = new ++ w.log) ∧ rest.length ≤ elements.length)
    (J := fun w' => Resumed w w' call elements.length) ?_ ?_ ?_ elements w
    ⟨⟨rfl, rfl, rfl⟩, ⟨[], rfl⟩, Nat.le_refl _⟩
  · rintro message rest w₁ e - ⟨kept, ⟨new, hlog⟩, hlen⟩
    refine ⟨kept, ⟨.rejected call rest.length e.what :: new, ?_⟩, Nat.le_of_succ_le hlen⟩
    rw [World.emit, hlog]
    rfl
  · rintro message rest w₁ m - ⟨⟨hcalls, hlost, hnext⟩, ⟨new, hlog⟩, hlen⟩
    constructor
    · intro c hc
      simp [World.awaitMember, Std.ExtTreeMap.getElem?_insert, Ne.symm hc, hcalls]
    · exact hlost
    · exact hnext
    · refine ⟨.memberLookup call rest.length m.id :: new, ?_⟩
      rw [World.awaitMember, hlog]
      rfl
    · exact .inl ⟨_, Std.ExtTreeMap.getElem?_insert_self⟩
    · refine (remaining_le Std.ExtTreeMap.getElem?_insert_self).trans ?_
      rw [List.length_cons] at hlen
      simp only
      omega
  · rintro w₁ ⟨⟨hcalls, hlost, hnext⟩, ⟨new, hlog⟩, -⟩
    rw [finishBatch_eq]
    constructor
    · exact fun c _ => congrArg (fun calls => calls[c]?) hcalls
    · exact hlost
    · exact hnext
    · exact ⟨finishEvents w₁ call ++ new, by rw [finish_log, hlog, List.append_assoc]⟩
    · exact .inr List.mem_cons_self
    · refine (remaining_of_idle ?_).trans_le (Nat.zero_le _)
      exact (congrArg (fun calls => calls[call]?) hcalls).trans hidle

/-- The completion of a remote call of `call`. -/
def isCompletionOf (call : Nat) : Label → Bool
  | .complete c _ _ _ => c = call
  | _ => false

/-- A step that is no completion of the call leaves it as it is. -/
theorem progress_of_same {w w' : World} {l : Label} {call : Nat} (hstarted : call < w.nextCall)
    (hsettled : Settled w call) (hl : isCompletionOf call l = false)
    (hnext : w.nextCall ≤ w'.nextCall) (hcalls : w'.calls[call]? = w.calls[call]?)
    (hlost : w'.lost = w.lost) (hlog : ∃ new, w'.log = new ++ w.log) :
    call < w'.nextCall ∧ Settled w' call ∧
      remaining w' call + (if isCompletionOf call l then 1 else 0) ≤ remaining w call := by
  obtain ⟨new, hlog⟩ := hlog
  refine ⟨hstarted.trans_le hnext, ?_, ?_⟩
  · rcases hsettled with ⟨frame, hf⟩ | hret
    · exact .inl ⟨frame, hcalls.trans hf⟩
    · exact .inr (hlog ▸ List.mem_append_right _ hret)
  · rw [hl, remaining, World.waiting, hcalls, hlost]
    exact Nat.le_refl _

/-- A call that is lost is not waited for any more. -/
theorem progress_of_lose {w : World} {l : Label} {c call : Nat} {frame : Frame}
    (hu : Unread P w c frame l) (hstarted : call < w.nextCall) (hsettled : Settled w call) :
    call < (w.lose c).nextCall ∧ Settled (w.lose c) call ∧
      remaining (w.lose c) call + (if isCompletionOf call l then 1 else 0) ≤ remaining w call := by
  refine ⟨hstarted, hsettled, ?_⟩
  by_cases hc : c = call
  · subst hc
    have := remaining_pos hu.1
    rw [remaining_of_lost List.mem_cons_self]
    split <;> omega
  · have other : isCompletionOf call l = false := by
      rcases hu.2 with ⟨result, now, storage, rfl, -⟩ | ⟨result, rfl, -⟩
      · simp [isCompletionOf, hc]
      · rfl
    have same : (w.lose c).waiting call = w.waiting call := by
      simp [World.waiting, World.lose, Ne.symm hc]
    rw [other, remaining, same]
    exact Nat.le_refl _

/-- **The step lemma.** A completion of a call takes it on; no other step touches it. -/
theorem step_progress {w w' : World} {l : Label} {call : Nat} (hp : Positioned P w)
    (hstep : step P w l = some w') (hstarted : call < w.nextCall) (hsettled : Settled w call) :
    call < w'.nextCall ∧ Settled w' call ∧
      remaining w' call + (if isCompletionOf call l then 1 else 0) ≤ remaining w call := by
  rcases step_cases hstep with ⟨messages, now, storage, rfl, rfl, -⟩ |
    ⟨elements, now, storage, rfl, -, rfl⟩ |
    ⟨c, result, now, storage, frame, m, rfl, hf, hawait, -, -, rfl⟩ |
    ⟨c, result, now, storage, frame, m, rfl, hf, -, -, -, rfl⟩ | ⟨n, response, r, rfl, -, rfl⟩ |
    ⟨c, frame, hu, rfl⟩ | ⟨c, result, rfl, rfl⟩
  · exact progress_of_same hstarted hsettled rfl (Nat.le_succ _) rfl rfl ⟨[_, _], rfl⟩
  · have hidle : (w.deliver (.array elements)).calls[w.nextCall]? = none := idle_nextCall hp
    have resumed := nextMessage_resumed (P := P) now storage elements hidle
    obtain ⟨new, hlog⟩ := resumed.log
    apply progress_of_same hstarted hsettled rfl
    · rw [resumed.next]
      exact Nat.le_succ _
    · exact resumed.others call (Nat.ne_of_lt hstarted)
    · exact resumed.lost
    · exact ⟨new ++ [.delivered w.nextCall (.array elements)], by
        rw [hlog, List.append_assoc]; rfl⟩
  · by_cases hc : c = call
    · subst hc
      refine ⟨hstarted, .inl ⟨_, Std.ExtTreeMap.getElem?_insert_self⟩, ?_⟩
      simp [remaining, World.waiting, World.awaitDirectMessage, hf.suspended, hf.waits, hawait,
        isCompletionOf]
    · have other : isCompletionOf call (.complete c result now storage) = false := by
        simp [isCompletionOf, hc]
      have hnext : w.nextCall ≤ (w.awaitDirectMessage c m frame.rest).nextCall := Nat.le_refl _
      apply progress_of_same hstarted hsettled other hnext
      · simp [World.awaitDirectMessage, Std.ExtTreeMap.getElem?_insert, hc]
      · rfl
      · exact ⟨[_], rfl⟩
  · have hidle : ((w.sent c frame.rest.length m).store m).calls[c]? = none := by
      simp [World.store, World.sent]
    have resumed := nextMessage_resumed (P := P) now storage frame.rest hidle
    obtain ⟨new, hlog⟩ := resumed.log
    by_cases hc : c = call
    · subst hc
      refine ⟨resumed.next ▸ hstarted, resumed.settled, ?_⟩
      have hbefore := remaining_pos (waiting_eq_some.mpr ⟨hf.waits, hf.suspended⟩)
      have hafter := resumed.remaining
      simp only [isCompletionOf, decide_true, if_true]
      omega
    · obtain ⟨stored, hstored, -⟩ := sent_log w c frame.rest.length m
      apply progress_of_same hstarted hsettled (by simp [isCompletionOf, hc]) resumed.next.ge
      · rw [resumed.others call (Ne.symm hc)]
        simp [World.store, World.sent, Std.ExtTreeMap.getElem?_erase, hc]
      · exact resumed.lost
      · exact ⟨new ++ stored, by rw [hlog, hstored, List.append_assoc]⟩
  · exact progress_of_same hstarted hsettled rfl (Nat.le_refl _) rfl rfl
      ⟨_, answer_log w n r response⟩
  · exact progress_of_lose hu hstarted hsettled
  · exact progress_of_same hstarted hsettled rfl (Nat.le_refl _) rfl rfl ⟨[], rfl⟩

/-- **The run lemma.** Every completion of a call that has started leaves it fewer to be
taken on by. -/
theorem run_progress {call : Nat} :
    ∀ {labels : List Label} {w w' : World}, (system P).Reachable w → call < w.nextCall →
      Settled w call → (system P).run w labels = some w' →
      Settled w' call ∧ remaining w' call + labels.countP (isCompletionOf call) ≤ remaining w call
  | [], w, w', _, _, hsettled, hrun => by
      rw [Transition.System.run_nil, Option.some.injEq] at hrun
      exact hrun ▸ ⟨hsettled, Nat.le_refl _⟩
  | l :: labels, w, w', hw, hstarted, hsettled, hrun => by
      obtain ⟨v, hstep, hrest⟩ := ((system P).run_cons).mp hrun
      obtain ⟨hstarted, hsettled, hless⟩ :=
        step_progress (positioned hw) hstep hstarted hsettled
      obtain ⟨hsettled, hrest⟩ := run_progress (hw.step hstep) hstarted hsettled hrest
      refine ⟨hsettled, ?_⟩
      rw [List.countP_cons]
      omega

/-! ### A delivered array, to the end -/

/-- A delivery starts a call that has as many completions to wait for as two for each
element. -/
theorem deliver_settled {w w' : World} {elements : List Json} {now : Int}
    {storage : Nat → UInt64} (hp : Positioned P w)
    (hstep : step P w (.deliver (.array elements) now storage) = some w') :
    w.nextCall < w'.nextCall ∧ Settled w' w.nextCall ∧
      remaining w' w.nextCall ≤ 2 * elements.length ∧
      ∃ new, w'.log = new ++ .delivered w.nextCall (.array elements) :: w.log := by
  simp only [step, Option.some.injEq] at hstep
  subst hstep
  have hidle : (w.deliver (.array elements)).calls[w.nextCall]? = none := idle_nextCall hp
  cases elements with
  | nil =>
    refine ⟨Nat.lt_succ_self _, .inr List.mem_cons_self, ?_, [.returned w.nextCall], rfl⟩
    exact (remaining_of_idle hidle).le
  | cons element rest =>
    have resumed := nextMessage_resumed (P := P) now storage (element :: rest) hidle
    refine ⟨?_, resumed.settled, resumed.remaining, resumed.log⟩
    change w.nextCall < ((w.deliver _).nextMessage P now storage w.nextCall (element :: rest)).nextCall
    rw [resumed.next]
    exact Nat.lt_succ_self _

/-- What has been done with an element: it became a message, whose member was looked
up, or its exception was logged. -/
def ElementHandled (P : Platform) (w : World) (call : Nat) (element : Json) (position : Nat) : Prop :=
  w.log.countP (Event.handles call position) = 1 ∧
    ((∃ now storage m, QueuedMessage.ofJson P now storage element = .ok m ∧
        .memberLookup call position m.id ∈ w.log) ∨
      ∃ now storage e, QueuedMessage.ofJson P now storage element = .error e ∧
        .rejected call position e.what ∈ w.log)

/-- Two ways to split an array at the same distance from its end. -/
theorem element_unique {done done' rest rest' : List Json} {element element' : Json}
    (h : done ++ element :: rest = done' ++ element' :: rest') (hlen : rest.length = rest'.length) :
    element = element' := by
  have hsplit := List.append_inj' h (by simp [hlen])
  exact (List.cons.inj hsplit.2).1

/-- A call that has returned has handled each of its elements. -/
theorem elements_handled {w : World} (hw : (system P).Reachable w) {call : Nat}
    {elements : List Json} (hdel : .delivered call (.array elements) ∈ w.log)
    (hret : .returned call ∈ w.log) {done rest : List Json} {element : Json}
    (hsplit : elements = done ++ element :: rest) :
    ElementHandled P w call element rest.length := by
  have hp := positioned hw
  have hone := (hp.finished call elements hret hdel).1 rest.length (Nat.zero_le _) (by
    rw [hsplit, List.length_append, List.length_cons]
    omega)
  refine ⟨hone, ?_⟩
  obtain ⟨e, he, hhandles⟩ := List.countP_pos_iff.mp (Nat.lt_of_lt_of_eq Nat.one_pos hone.symm)
  cases e with
  | memberLookup c p id =>
    simp only [Event.handles, Bool.and_eq_true, decide_eq_true_eq] at hhandles
    obtain ⟨rfl, rfl⟩ := hhandles
    obtain ⟨done', element', rest', now, storage, m, hdel', hlen, hm, rfl⟩ :=
      (delivered hw).listed _ _ _ he
    have harray := Json.array.inj (hp.unique c _ _ hdel hdel')
    obtain rfl := element_unique (hsplit.symm.trans harray) hlen.symm
    exact .inl ⟨now, storage, m, hm, he⟩
  | rejected c p what =>
    simp only [Event.handles, Bool.and_eq_true, decide_eq_true_eq] at hhandles
    obtain ⟨rfl, rfl⟩ := hhandles
    obtain ⟨done', element', rest', now, storage, x, hdel', hlen, hx, rfl⟩ :=
      rejected_listed hw _ _ _ he
    have harray := Json.array.inj (hp.unique c _ _ hdel hdel')
    obtain rfl := element_unique (hsplit.symm.trans harray) hlen.symm
    exact .inr ⟨now, storage, x, hx, he⟩
  | _ => cases hhandles

/-- A call that still waits has a completion to wait for. -/
theorem returned_of_remaining {w : World} {call : Nat} (hsettled : Settled w call)
    (waits : call ∉ w.lost) (h : remaining w call = 0) : .returned call ∈ w.log := by
  rcases hsettled with ⟨frame, hf⟩ | hret
  · have := remaining_pos (waiting_eq_some.mpr ⟨waits, hf⟩)
    omega
  · exact hret

/-! ### Calls that are lost -/

/-- What a step does to the calls that are lost. -/
theorem step_lost {w w' : World} {l : Label} (hp : Positioned P w)
    (hstep : step P w l = some w') :
    w'.lost = w.lost ∨ ∃ call frame, Unread P w call frame l ∧ w'.lost = call :: w.lost := by
  rcases step_cases hstep with ⟨messages, now, storage, rfl, rfl, -⟩ |
    ⟨elements, now, storage, rfl, -, rfl⟩ | ⟨c, result, now, storage, frame, m, rfl, -, -, -, -, rfl⟩ |
    ⟨c, result, now, storage, frame, m, rfl, -, -, -, -, rfl⟩ | ⟨n, response, r, rfl, -, rfl⟩ |
    ⟨c, frame, hu, rfl⟩ | ⟨c, result, rfl, rfl⟩
  · exact .inl rfl
  · have hidle : (w.deliver (.array elements)).calls[w.nextCall]? = none := idle_nextCall hp
    exact .inl (nextMessage_resumed (P := P) now storage elements hidle).lost
  · exact .inl rfl
  · have hidle : ((w.sent c frame.rest.length m).store m).calls[c]? = none := by
      simp [World.store, World.sent]
    exact .inl (nextMessage_resumed (P := P) now storage frame.rest hidle).lost
  · exact .inl rfl
  · exact .inr ⟨c, frame, hu, rfl⟩
  · exact .inl rfl

/-- Only a completion of a call takes it on, and none when it is lost. -/
theorem frame_kept {w w' : World} {l : Label} {call : Nat} {frame : Frame}
    (hp : Positioned P w) (hstep : step P w l = some w') (hf : w.calls[call]? = some frame)
    (stays : isCompletionOf call l = false ∨ call ∈ w.lost) : w'.calls[call]? = some frame := by
  have hstarted := (hp.suspended call frame hf).started
  have other : ∀ {c result now storage f}, l = .complete c result now storage →
      Taken P w c result f → c ≠ call := by
    rintro c result now storage f rfl taken rfl
    exact stays.elim (by simp [isCompletionOf]) taken.waits
  rcases step_cases hstep with ⟨messages, now, storage, rfl, rfl, -⟩ |
    ⟨elements, now, storage, rfl, -, rfl⟩ | ⟨c, result, now, storage, f, m, hl, hc, -, -, -, rfl⟩ |
    ⟨c, result, now, storage, f, m, hl, hc, -, -, -, rfl⟩ | ⟨n, response, r, rfl, -, rfl⟩ |
    ⟨c, f, hu, rfl⟩ | ⟨c, result, rfl, rfl⟩
  · exact hf
  · have hidle : (w.deliver (.array elements)).calls[w.nextCall]? = none :=
      idle_nextCall hp
    have resumed := nextMessage_resumed (P := P) now storage elements hidle
    rw [resumed.others call (Nat.ne_of_lt hstarted)]
    exact hf
  · simpa [World.awaitDirectMessage, Std.ExtTreeMap.getElem?_insert, other hl hc] using hf
  · have hidle : ((w.sent c f.rest.length m).store m).calls[c]? = none := by
      simp [World.store, World.sent]
    have resumed := nextMessage_resumed (P := P) now storage f.rest hidle
    rw [resumed.others call (other hl hc).symm]
    simpa [World.store, World.sent, Std.ExtTreeMap.getElem?_erase, other hl hc] using hf
  · exact hf
  · exact hf
  · exact hf

/-- The condition on a step: an answer for the call can be read. -/
def AnswerRead (P : Platform) (call : Nat) (w : World) : Label → Prop
  | .complete c result _ _ =>
      c = call → ∀ frame ∈ w.waiting call, frame.awaiting.reads P result = true
  | .created c result =>
      c = call → ∀ frame ∈ w.waiting call, frame.awaiting = .directMessage →
        (Channel.ofJson (P.postRest result).1).isSome = true
  | _ => True

instance (P : Platform) (call : Nat) (w : World) : ∀ l, Decidable (AnswerRead P call w l)
  | .complete c result _ _ => inferInstanceAs (Decidable (c = call →
      ∀ frame ∈ w.waiting call, frame.awaiting.reads P result = true))
  | .created c result => inferInstanceAs (Decidable (c = call →
      ∀ frame ∈ w.waiting call, frame.awaiting = .directMessage →
        (Channel.ofJson (P.postRest result).1).isSome = true))
  | .deliver _ _ _ => inferInstanceAs (Decidable True)
  | .answer _ _ => inferInstanceAs (Decidable True)

theorem Unread.not_answerRead {w : World} {call : Nat} {frame : Frame} {l : Label}
    (h : Unread P w call frame l) : ¬ AnswerRead P call w l := by
  obtain ⟨hf, ⟨result, now, storage, rfl, hread⟩ | ⟨result, rfl, hawait, hread⟩⟩ := h
  · intro read
    have := read rfl frame hf
    rw [hread] at this
    cases this
  · intro read
    have := read rfl frame hf hawait
    rw [hread] at this
    cases this

/-- A step whose answer for the call cannot be read loses it and does nothing else. -/
theorem lose_of_unread {w w' : World} {call : Nat} {l : Label}
    (h : ¬ AnswerRead P call w l) (hstep : step P w l = some w') : w' = w.lose call := by
  cases l with
  | complete c result now storage =>
    simp only [AnswerRead, Option.mem_def] at h
    push Not at h
    obtain ⟨rfl, frame, hf, hread⟩ := h
    simp only [step, hf, Option.map_some, Option.some.injEq] at hstep
    rw [← hstep, if_neg hread]
  | created c result =>
    simp only [AnswerRead, Option.mem_def] at h
    push Not at h
    obtain ⟨rfl, frame, hf, hawait, hread⟩ := h
    simp only [step, hf, Option.bind_some, hawait, if_neg hread, Option.some.injEq] at hstep
    exact hstep.symm
  | deliver messages now storage => exact absurd trivial h
  | answer n response => exact absurd trivial h

/-- **When a step loses a call.** -/
theorem lost_step_iff {w w' : World} {call : Nat} {l : Label} (hp : Positioned P w)
    (hstep : step P w l = some w') :
    call ∈ w'.lost ↔ call ∈ w.lost ∨ ¬ AnswerRead P call w l := by
  constructor
  · intro hlost
    rcases step_lost hp hstep with heq | ⟨c, frame, hu, heq⟩
    · exact .inl (heq ▸ hlost)
    · rw [heq] at hlost
      rcases List.mem_cons.mp hlost with rfl | hlost
      · exact .inr hu.not_answerRead
      · exact .inl hlost
  · rintro (hlost | hunread)
    · rcases step_lost hp hstep with heq | ⟨c, frame, -, heq⟩
      · rwa [heq]
      · exact heq ▸ List.mem_cons_of_mem c hlost
    · rw [lose_of_unread hunread hstep]
      exact List.mem_cons_self

/-- A call whose answer could not be read. -/
structure Lost (w : World) (call : Nat) : Prop where
  lost : call ∈ w.lost
  suspended : ∃ frame, w.calls[call]? = some frame

theorem Lost.step {w w' : World} {l : Label} {call : Nat} (h : Lost w call)
    (hp : Positioned P w) (hstep : step P w l = some w') : Lost w' call := by
  obtain ⟨hlost, frame, hf⟩ := h
  exact ⟨(lost_step_iff hp hstep).mpr (.inl hlost), frame,
    frame_kept hp hstep hf (.inr hlost)⟩

/-- Only suspended calls are lost. -/
theorem lost_of_mem {w : World} (hw : (system P).Reachable w) {call : Nat} (h : call ∈ w.lost) :
    Lost w call := by
  have preserved : (system P).Preserved fun w =>
      Positioned P w ∧ ∀ call ∈ w.lost, Lost w call := by
    rintro w l w' ⟨hp, h⟩ hstep
    have hstep : step P w l = some w' := hstep
    refine ⟨(step_moves (Q := fun _ _ => True) hp hstep trivial).1, fun call hlost => ?_⟩
    rcases (lost_step_iff hp hstep).mp hlost with hold | hunread
    · exact (h call hold).step hp hstep
    · refine ⟨hlost, ?_⟩
      rcases step_lost hp hstep with heq | ⟨c, frame, hu, heq⟩
      · exact ((h call (heq ▸ hlost)).step hp hstep).suspended
      · rcases List.mem_cons.mp (heq ▸ hlost) with rfl | hold
        · obtain rfl := lose_of_unread hu.not_answerRead hstep
          exact ⟨frame, (waiting_eq_some.mp hu.1).2⟩
        · exact ((h call hold).step hp hstep).suspended
  exact (hw.invariant (P := fun w => Positioned P w ∧ ∀ call ∈ w.lost, Lost w call)
    ⟨positioned_start, fun _ h => by cases h⟩ preserved).2 call h

/-- Whatever a call posts it posts when it returns. -/
def ReportsReturned (w : World) : Prop :=
  ∀ call n entries, .reported call n entries ∈ w.log → .returned call ∈ w.log

theorem ReportsReturned.extend {w w' : World} {new : List Event} (h : ReportsReturned w)
    (hlog : w'.log = new ++ w.log) (quiet : ∀ e ∈ new, ∀ call n entries, e ≠ .reported call n entries) :
    ReportsReturned w' := by
  intro call n entries hmem
  rw [hlog] at hmem ⊢
  rcases List.mem_append.mp hmem with he | he
  · exact absurd rfl (quiet _ he call n entries)
  · exact List.mem_append_right _ (h call n entries he)

theorem ReportsReturned.cons {w w' : World} {e : Event} (h : ReportsReturned w)
    (hlog : w'.log = e :: w.log) (quiet : ∀ call n entries, e ≠ .reported call n entries) :
    ReportsReturned w' := by
  have hlog : w'.log = [e] ++ w.log := hlog
  exact h.extend hlog fun e' he' => List.mem_singleton.mp he' ▸ quiet

theorem reportsReturned_finish {w : World} (call : Nat) (body : Json) (h : ReportsReturned w) :
    ReportsReturned ((w.sweep.request call body).emit (.returned call)) := by
  intro c n entries hmem
  rw [finish_log] at hmem ⊢
  rcases List.mem_append.mp hmem with he | he
  · rcases mem_finishEvents he with he | he | ⟨m, -, he⟩
    · cases he
    · cases he
      exact List.mem_append_left _ List.mem_cons_self
    · cases he
  · exact List.mem_append_right _ (h c n entries he)

theorem reportsReturned_closed : MoveClosed P (fun _ _ => True) ReportsReturned := by
  intro w w' move h
  cases move with
  | deliver messages hp => exact h.cons rfl (by simp)
  | skip hp empty => exact h.cons rfl (by simp)
  | rejected hr he => exact h.cons rfl (by simp)
  | awaitMember hp hr hm => exact h.cons rfl (by simp)
  | awaitDirectMessage hp hf hawait hid htries => exact h.cons rfl (by simp)
  | @sent _ call _ _ _ frame m hq hp hf hsend hid htries =>
    obtain ⟨new, hlog, hnew⟩ := sent_log w call frame.rest.length m
    refine h.extend hlog fun e he => ?_
    rcases hnew e he with rfl | rfl <;> simp
  | finish now hr => exact reportsReturned_finish _ _ h
  | answer hq hr =>
    refine h.extend (answer_log w _ _ _) fun e he => ?_
    rcases mem_answerEvents he with ⟨m, rfl⟩ | rfl <;> simp
  | lose hq hu => exact h

theorem reported_returned {w : World} (hw : (system P).Reachable w) : ReportsReturned w :=
  reportsReturned_closed.reachable (fun _ _ _ he => by cases he) hw

/-- **A call that is lost never ends.** It neither returns nor posts a report. -/
theorem lost_stays {w w' : World} {labels : List Label} {call : Nat}
    (hw : (system P).Reachable w) (h : Lost w call) (hrun : (system P).run w labels = some w') :
    Lost w' call ∧ .returned call ∉ w'.log ∧ ∀ n entries, .reported call n entries ∉ w'.log := by
  have preserved : (system P).Preserved fun w => Positioned P w ∧ Lost w call := by
    intro w l w' h hstep
    exact ⟨(step_moves (Q := fun _ _ => True) h.1 hstep trivial).1, h.2.step h.1 hstep⟩
  have lost := (preserved.run ⟨positioned hw, h⟩ hrun).2
  have hw' := hw.run hrun
  obtain ⟨frame, hf⟩ := lost.suspended
  have active := ((positioned hw').suspended call frame hf).active
  exact ⟨lost, active, fun n entries hmem => active (reported_returned hw' _ n entries hmem)⟩

/-- The log only grows. -/
theorem run_log {labels : List Label} {w w' : World} (hrun : (system P).run w labels = some w')
    (hw : (system P).Reachable w) {e : Event} (he : e ∈ w.log) : e ∈ w'.log := by
  have closed : MoveClosed P (fun _ _ => True) fun v => e ∈ v.log := by
    intro v v' move hv
    cases move with
    | deliver messages hp => exact List.mem_cons_of_mem _ hv
    | skip hp empty => exact List.mem_cons_of_mem _ hv
    | rejected hr hx => exact List.mem_cons_of_mem _ hv
    | awaitMember hp hr hm => exact List.mem_cons_of_mem _ hv
    | awaitDirectMessage hp hf hawait hid htries => exact List.mem_cons_of_mem _ hv
    | @sent _ call _ _ _ frame m hq hp hf hsend hid htries =>
      obtain ⟨new, hlog, -⟩ := store_log (v.sent call frame.rest.length m) m
      exact hlog ▸ List.mem_append_right _ (List.mem_cons_of_mem _ hv)
    | finish now hr => exact finish_log v _ _ ▸ List.mem_append_right _ hv
    | answer hq hr => exact answer_log v _ _ _ ▸ List.mem_append_right _ hv
    | lose hq hu => exact hv
  exact closed.run hw he hrun

/-- **A delivered array is worked off.** However the run goes on, nothing escapes; the
call is suspended or has returned, and each completion leaves fewer of the at most two for
each element; unless it is lost it has returned when none remains; and when it has
returned, each element has been handled. -/
theorem call_completes {w w₁ w₂ : World} {elements : List Json} {now : Int}
    {storage : Nat → UInt64} {labels : List Label} (hw : (system P).Reachable w)
    (hstep : step P w (.deliver (.array elements) now storage) = some w₁)
    (hrun : (system P).run w₁ labels = some w₂) :
    NoEscape w₂ ∧ Settled w₂ w.nextCall ∧
      remaining w₂ w.nextCall + labels.countP (isCompletionOf w.nextCall) ≤ 2 * elements.length ∧
      (w.nextCall ∉ w₂.lost → remaining w₂ w.nextCall = 0 → .returned w.nextCall ∈ w₂.log) ∧
      (.returned w.nextCall ∈ w₂.log → ∀ done element rest, elements = done ++ element :: rest →
        ElementHandled P w₂ w.nextCall element rest.length) := by
  have enabled : (system P).step w (.deliver (.array elements) now storage) = some w₁ := hstep
  have hw₁ := hw.step enabled
  have hw₂ := hw₁.run hrun
  obtain ⟨hstarted, hsettled, hremaining, new, hlog⟩ := deliver_settled (positioned hw) hstep
  obtain ⟨hsettled₂, hless⟩ := run_progress hw₁ hstarted hsettled hrun
  have hdel : .delivered w.nextCall (.array elements) ∈ w₂.log := by
    apply run_log hrun hw₁
    rw [hlog]
    exact List.mem_append_right _ List.mem_cons_self
  refine ⟨no_escape hw₂, hsettled₂, hless.trans hremaining, returned_of_remaining hsettled₂, ?_⟩
  intro hret done element rest hsplit
  exact elements_handled hw₂ hdel hret hsplit

end Messages
