import CordactylBot.Messages.Outcomes

/-!
Which elements are sent, and how often.

Nothing in the program compares an id with the calls under way or with the cache
before it sends. What it does guarantee is per element: an element delivered by an
acknowledgement causes at most one direct message, and only a delivered element
causes one (`direct_messages`). A refused report or a slow batch therefore resends
nothing by itself. When the API lists an id again before it has accepted a report
about it, the message goes out again (`not_noDuplicates`). When it lists an id again
only after the outcome of the last message with it has left the cache (`InTurn`), no
two sends of the id overlap (`alone`).
-/

namespace Messages

open World EventLog

variable {P : Platform}

/-- A member lookup for `id`: an element became a message with this id. -/
def isLookupOf (id : UInt64) : Event → Bool
  | .memberLookup _ _ k => k = id
  | _ => false

/-- The element a direct message was issued for. -/
def directMessageTag : Event → Option (Nat × Nat)
  | .directMessage call position _ => some (call, position)
  | _ => none

/-- The element at this place of the array delivered to `call` is a message with this id. -/
def Listed (P : Platform) (w : World) (call position : Nat) (id : UInt64) : Prop :=
  ∃ done element rest now storage m, .delivered call (.array (done ++ element :: rest)) ∈ w.log ∧
    rest.length = position ∧ QueuedMessage.ofJson P now storage element = .ok m ∧ m.id = id

/-- The call has gone beyond the element. -/
def Past (w : World) (call position : Nat) : Prop :=
  ∀ frame, w.calls[call]? = some frame → frame.rest.length < position

/-- Every direct message belongs to a listed element, no two to the same, and what
is cached comes from elements whose sends are over. -/
structure Delivered (P : Platform) (w : World) : Prop where
  listed : ∀ call position id, .memberLookup call position id ∈ w.log → Listed P w call position id
  looked : ∀ call position id, .directMessage call position id ∈ w.log →
    .memberLookup call position id ∈ w.log
  once : (w.log.filterMap directMessageTag).Nodup
  cached : ∀ (id : UInt64) m, w.cache.cacheMap[id]? = some m →
    ∃ call position, .memberLookup call position id ∈ w.log ∧ Past w call position

/-! ### Moves keep deliveries -/

theorem Listed.extend {w w' : World} {call position : Nat} {id : UInt64} {new : List Event}
    (h : Listed P w call position id) (hlog : w'.log = new ++ w.log) :
    Listed P w' call position id := by
  obtain ⟨done, element, rest, now, storage, m, hdel, hrest⟩ := h
  exact ⟨done, element, rest, now, storage, m, hlog ▸ List.mem_append_right _ hdel, hrest⟩

/-- A move that issues nothing, adds nothing to the cache and only lets calls go on. -/
theorem Delivered.extend {w w' : World} {new : List Event} (h : Delivered P w)
    (hlog : w'.log = new ++ w.log)
    (issues : ∀ e ∈ new, ∀ call position id, e ≠ .memberLookup call position id ∧
      e ≠ .directMessage call position id)
    (hcalls : ∀ call position, Past w call position → Past w' call position)
    (hcache : ∀ (id : UInt64) m, w'.cache.cacheMap[id]? = some m →
      ∃ q, w.cache.cacheMap[id]? = some q) : Delivered P w' := by
  have old : ∀ {e}, e ∈ w.log → e ∈ w'.log := fun he => hlog ▸ List.mem_append_right _ he
  have tags : new.filterMap directMessageTag = [] := by
    refine List.filterMap_eq_nil_iff.mpr fun e he => ?_
    cases e with
    | directMessage call position id => exact absurd rfl (issues _ he call position id).2
    | _ => rfl
  refine ⟨fun call position id hmem => ?_, fun call position id hmem => ?_, ?_, fun id m hm => ?_⟩
  · rcases List.mem_append.mp (hlog ▸ hmem) with he | he
    · exact absurd rfl (issues _ he call position id).1
    · exact (h.listed call position id he).extend hlog
  · rcases List.mem_append.mp (hlog ▸ hmem) with he | he
    · exact absurd rfl (issues _ he call position id).2
    · exact old (h.looked call position id he)
  · rw [hlog, List.filterMap_append, tags, List.nil_append]
    exact h.once
  · obtain ⟨q, hq⟩ := hcache id m hm
    obtain ⟨call, position, hlook, hpast⟩ := h.cached id q hq
    exact ⟨call, position, old hlook, hcalls call position hpast⟩

/-- One event of another kind, calls and cache as they were. -/
theorem Delivered.cons {w w' : World} {e : Event} (h : Delivered P w) (hlog : w'.log = e :: w.log)
    (issues : ∀ call position id, e ≠ .memberLookup call position id ∧
      e ≠ .directMessage call position id)
    (hcalls : w'.calls = w.calls) (hcache : w'.cache = w.cache) : Delivered P w' := by
  have hlog : w'.log = [e] ++ w.log := hlog
  refine h.extend hlog (fun e' he' => List.mem_singleton.mp he' ▸ issues) ?_ ?_
  · intro call position hpast
    rwa [Past, hcalls]
  · intro id m hm
    exact ⟨m, hcache ▸ hm⟩

theorem delivered_awaitMember {w : World} {call : Nat} {message : Json} {rest : List Json}
    {now : Int} {storage : UInt64} {m : QueuedMessage} (hr : Running w call (message :: rest))
    (hm : QueuedMessage.ofJson P now storage message = .ok m) (h : Delivered P w) :
    Delivered P (w.awaitMember call m rest) := by
  have hlog : (w.awaitMember call m rest).log = [.memberLookup call rest.length m.id] ++ w.log := rfl
  obtain ⟨done, hdel, -⟩ := hr.suffix
  refine ⟨fun c p id hmem => ?_, fun c p id hmem => ?_, h.once, fun id q hq => ?_⟩
  · rcases List.mem_cons.mp hmem with he | he
    · cases he
      exact ⟨done, message, rest, now, storage, m, List.mem_cons_of_mem _ hdel, rfl, hm, rfl⟩
    · exact (h.listed c p id he).extend hlog
  · rcases List.mem_cons.mp hmem with he | he
    · cases he
    · exact List.mem_cons_of_mem _ (h.looked c p id he)
  · obtain ⟨c, p, hlook, hpast⟩ := h.cached id q hq
    refine ⟨c, p, List.mem_cons_of_mem _ hlook, fun frame hf => ?_⟩
    rw [World.awaitMember, Std.ExtTreeMap.getElem?_insert] at hf
    split at hf
    · rename_i heq
      rw [Std.LawfulEqCmp.compare_eq_iff_eq] at heq
      subst heq
      cases hf
      exact hr.ahead _ hlook p rfl
    · exact hpast frame hf

theorem delivered_awaitDirectMessage {w : World} {call : Nat} {frame : Frame} {m : QueuedMessage}
    (hf : w.calls[call]? = some frame) (hs : Suspended P w call frame)
    (hawait : frame.awaiting = .memberLookup) (hid : m.id = frame.message.id)
    (h : Delivered P w) : Delivered P (w.awaitDirectMessage call m frame.rest) := by
  have hlog : (w.awaitDirectMessage call m frame.rest).log =
      [.directMessage call frame.rest.length m.id] ++ w.log := rfl
  refine ⟨fun c p id hmem => ?_, fun c p id hmem => ?_, ?_, fun id q hq => ?_⟩
  · rcases List.mem_cons.mp hmem with he | he
    · cases he
    · exact (h.listed c p id he).extend hlog
  · rcases List.mem_cons.mp hmem with he | he
    · cases he
      exact List.mem_cons_of_mem _ (hid ▸ hs.lookup)
    · exact List.mem_cons_of_mem _ (h.looked c p id he)
  · -- the element had no direct message yet: its send was waiting for the lookup
    refine List.nodup_cons.mpr ⟨fun hmem => ?_, h.once⟩
    obtain ⟨e, he, htag⟩ := List.mem_filterMap.mp hmem
    cases e with
    | directMessage c p id =>
      cases htag
      exact hs.fresh hawait id he
    | _ => cases htag
  · obtain ⟨c, p, hlook, hpast⟩ := h.cached id q hq
    refine ⟨c, p, List.mem_cons_of_mem _ hlook, fun f hc => ?_⟩
    rw [World.awaitDirectMessage, Std.ExtTreeMap.getElem?_insert] at hc
    split at hc
    · rename_i heq
      rw [Std.LawfulEqCmp.compare_eq_iff_eq] at heq
      subst heq
      cases hc
      exact hpast frame hf
    · exact hpast f hc

theorem delivered_sent {w : World} {call : Nat} {frame : Frame} {m : QueuedMessage}
    (hs : Suspended P w call frame) (hid : m.id = frame.message.id) (h : Delivered P w) :
    Delivered P ((w.sent call frame.rest.length m).store m) := by
  obtain ⟨new, hlog, hnew⟩ := sent_log w call frame.rest.length m
  have issues : ∀ e ∈ new, ∀ c p id,
      e ≠ .memberLookup c p id ∧ e ≠ .directMessage c p id := by
    intro e he c p id
    rcases hnew e he with rfl | rfl <;> exact ⟨Event.noConfusion, Event.noConfusion⟩
  have calls : ∀ c p, Past w c p → Past ((w.sent call frame.rest.length m).store m) c p := by
    intro c p hpast f hf
    rw [World.store, World.sent, Std.ExtTreeMap.getElem?_erase] at hf
    split at hf
    · cases hf
    · exact hpast f hf
  -- the part of the invariant that does not speak of the cache
  have unstored : Delivered P { (w.sent call frame.rest.length m).store m with cache := w.cache } :=
    h.extend hlog issues calls fun id q hq => ⟨q, hq⟩
  refine ⟨unstored.listed, unstored.looked, unstored.once, fun id q hq => ?_⟩
  rw [World.store, ProcessedMessageCache.getElem?_store] at hq
  split at hq
  · rename_i hnew
    obtain rfl := hnew.1
    refine ⟨call, frame.rest.length, ?_, fun f hf => ?_⟩
    · rw [hlog]
      exact List.mem_append_right _ (hid ▸ hs.lookup)
    · simp [World.store, World.sent] at hf
  · exact unstored.cached id q hq

theorem delivered_closed : MoveClosed P (fun _ _ => True) (Delivered P) := by
  intro w w' move h
  cases move with
  | deliver messages hp => exact h.cons rfl (fun _ _ _ => by simp) rfl rfl
  | skip hp empty => exact h.cons rfl (fun _ _ _ => by simp) rfl rfl
  | rejected hr he => exact h.cons rfl (fun _ _ _ => by simp) rfl rfl
  | awaitMember hp hr hm => exact delivered_awaitMember hr hm h
  | awaitDirectMessage hp hf hawait hid htries =>
    exact delivered_awaitDirectMessage hf (hp.suspended _ _ hf) hawait hid h
  | sent hq hp hf hsend hid htries => exact delivered_sent (hp.suspended _ _ hf.suspended) hid h
  | @finish _ call now hr =>
    refine h.extend (finish_log w call _) (fun e he c p id => ?_) (fun _ _ hpast => hpast) ?_
    · rcases mem_finishEvents he with rfl | rfl | ⟨m, -, rfl⟩ <;> simp
    · intro id m hm
      change w.cache.clearGarbageAndIncreaseTries.cacheMap[id]? = some m at hm
      rw [ProcessedMessageCache.getElem?_clearGarbageAndIncreaseTries,
        Option.bind_eq_some_iff] at hm
      exact ⟨_, hm.choose_spec.1⟩
  | @answer _ n r response hq hr =>
    refine h.extend (answer_log w n r response) (fun e he c p id => ?_) (fun _ _ hpast => hpast) ?_
    · rcases mem_answerEvents he with ⟨m, rfl⟩ | rfl <;> simp
    · intro id m hm
      change (w.cache.reported r.used response).cacheMap[id]? = some m at hm
      cases hacc : ProcessedMessageCache.accepted response with
      | false => exact ⟨m, by rwa [ProcessedMessageCache.reported_of_not_accepted hacc] at hm⟩
      | true =>
        rw [ProcessedMessageCache.getElem?_reported hacc] at hm
        split at hm
        · cases hm
        · exact ⟨m, hm⟩
  | lose hq hu =>
    exact h.extend (lose_log _ _) (by simp) (fun _ _ hpast => hpast) fun _ m hm => ⟨m, hm⟩

theorem delivered_start : Delivered P (system P).start where
  listed _ _ _ h := by cases h
  looked _ _ _ h := by cases h
  once := List.nodup_nil
  cached _ _ h := by simp [system] at h

theorem delivered {w : World} (hw : (system P).Reachable w) : Delivered P w :=
  delivered_closed.reachable delivered_start hw

/-! ### What a step issues -/

/-- What happened between `w` and `w'` issued no direct message. -/
def NoneIssued (w w' : World) : Prop :=
  ∃ new, w'.log = new ++ w.log ∧ ∀ e ∈ new, directMessageTag e = none

theorem NoneIssued.extend {w w₁ w₂ : World} {new : List Event} (h : NoneIssued w w₁)
    (hlog : w₂.log = new ++ w₁.log) (quiet : ∀ e ∈ new, directMessageTag e = none) :
    NoneIssued w w₂ := by
  obtain ⟨old, hold, hquiet⟩ := h
  refine ⟨new ++ old, by rw [hlog, hold, List.append_assoc], fun e he => ?_⟩
  rcases List.mem_append.mp he with he | he
  · exact quiet e he
  · exact hquiet e he

theorem NoneIssued.cons {w w₁ w₂ : World} {e : Event} (h : NoneIssued w w₁)
    (hlog : w₂.log = e :: w₁.log) (quiet : directMessageTag e = none) : NoneIssued w w₂ := by
  have hlog : w₂.log = [e] ++ w₁.log := hlog
  exact h.extend hlog fun e' he' => List.mem_singleton.mp he' ▸ quiet

theorem NoneIssued.refl (w : World) : NoneIssued w w :=
  ⟨[], rfl, by simp⟩

/-- The loop looks members up and never sends by itself. -/
theorem NoneIssued.nextMessage {w w₁ : World} {now : Int} {storage : Nat → UInt64} {call : Nat}
    {elements : List Json} (h : NoneIssued w w₁) :
    NoneIssued w (w₁.nextMessage P now storage call elements) := by
  refine nextMessage_rule (I := fun _ => NoneIssued w) (J := NoneIssued w) ?_ ?_ ?_ elements w₁ h
  · intro message rest w₂ e _ h
    exact h.cons rfl rfl
  · intro message rest w₂ m _ h
    exact h.cons rfl rfl
  · intro w₂ h
    rw [finishBatch_eq]
    refine h.extend (finish_log w₂ call _) fun e he => ?_
    rcases mem_finishEvents he with rfl | rfl | ⟨m, -, rfl⟩ <;> rfl

/-- The only step that issues a direct message moves a suspended send from its
lookup to it. -/
theorem issued_by {w w' : World} {l : Label} {new : List Event} {call position : Nat} {id : UInt64}
    (hstep : step P w l = some w') (hlog : w'.log = new ++ w.log)
    (hmem : .directMessage call position id ∈ new) :
    ∃ frame, w.calls[call]? = some frame ∧ frame.rest.length = position ∧ frame.message.id = id := by
  have quiet : NoneIssued w w' → False := by
    rintro ⟨old, hold, hquiet⟩
    obtain rfl := List.append_cancel_right (hlog.symm.trans hold)
    cases hquiet _ hmem
  rcases step_cases hstep with ⟨messages, _, _, rfl, rfl, -⟩ |
    ⟨elements, now, storage, rfl, -, rfl⟩ | ⟨c, _, _, _, frame, m, rfl, hf, -, hid, -, rfl⟩ |
    ⟨c, result, now, storage, frame, m, -, hf, -, -, -, rfl⟩ | ⟨n, response, r, -, hr, rfl⟩ |
    ⟨c, frame, -, rfl⟩ | ⟨c, result, -, rfl⟩
  · have started : NoneIssued w (w.deliver messages) := (NoneIssued.refl w).cons rfl rfl
    exact (quiet (started.cons rfl rfl)).elim
  · have started : NoneIssued w (w.deliver (.array elements)) := (NoneIssued.refl w).cons rfl rfl
    exact (quiet started.nextMessage).elim
  · have hnew : new = [.directMessage c frame.rest.length m.id] :=
      List.append_cancel_right (hlog.symm.trans rfl)
    rw [hnew, List.mem_singleton] at hmem
    cases hmem
    exact ⟨frame, hf.suspended, rfl, hid.symm⟩
  · obtain ⟨stored, hstored, hall⟩ := store_log (w.sent c frame.rest.length m) m
    have sent : NoneIssued w (w.sent c frame.rest.length m) := (NoneIssued.refl w).cons rfl rfl
    exact (quiet (sent.extend hstored fun e he => hall e he ▸ rfl).nextMessage).elim
  · refine (quiet ((NoneIssued.refl w).extend (answer_log w n r response) fun e he => ?_)).elim
    rcases mem_answerEvents he with ⟨m, rfl⟩ | rfl <;> rfl
  · exact (quiet ((NoneIssued.refl _).extend (lose_log _ c) (by simp))).elim
  · exact (quiet (NoneIssued.refl _)).elim

/-! ### Messages with one id -/

/-- A lookup for the id begins a turn of it, and an entry's leaving the cache ends one. -/
def turn (id : UInt64) : Event → Option Bool
  | .memberLookup _ _ k => if k = id then some true else none
  | .discarded m | .acknowledged _ m => if m.id = id then some false else none
  | _ => none

/-- A message with the id is looked up only when the one before it has left the cache. -/
def InTurn (id : UInt64) : List Event → Prop
  | [] => True
  | e :: older => (turn id e = some true → latest (turn id) older ≠ some true) ∧ InTurn id older

theorem InTurn.older {id : UInt64} {older : List Event} :
    ∀ {new : List Event}, InTurn id (new ++ older) → InTurn id older
  | [], h => h
  | _ :: _, h => InTurn.older h.2

theorem isLookupOf_of_turn {id : UInt64} {e : Event} (h : turn id e = some true) :
    isLookupOf id e = true := by
  cases e with
  | memberLookup call position k =>
    simp only [turn, Option.ite_none_right_eq_some] at h
    exact decide_eq_true h.1
  | discarded m | acknowledged n m =>
    simp only [turn] at h
    split at h <;> cases h
  | _ => cases h

/-- An id that at most one element had. -/
theorem inTurn_of_countP {id : UInt64} {log : List Event}
    (h : log.countP (isLookupOf id) ≤ 1) : InTurn id log := by
  induction log with
  | nil => trivial
  | cons e older ih =>
    refine ⟨fun hturn hlatest => ?_, ih ?_⟩
    · obtain ⟨e', he', hturn'⟩ := List.exists_of_findSome?_eq_some hlatest
      have := List.countP_pos_iff.mpr ⟨e', he', isLookupOf_of_turn hturn'⟩
      rw [List.countP_cons_of_pos (isLookupOf_of_turn hturn)] at h
      omega
    · exact Nat.le_trans (List.sublist_cons_self e older).countP_le h

/-- The call is sending a message with this id. -/
def Sending (w : World) (id : UInt64) (call : Nat) : Prop :=
  ∃ frame, w.calls[call]? = some frame ∧ frame.message.id = id

/-- At most one call is sending the id, while no outcome of it is cached; and when the last
message with it has left, there is neither. -/
structure Alone (id : UInt64) (w : World) : Prop where
  single : ∀ c c', Sending w id c → Sending w id c' → c = c'
  apart : ∀ c, Sending w id c → w.cache.cacheMap[id]? = none
  gone : latest (turn id) w.log ≠ some true →
    (∀ c, ¬ Sending w id c) ∧ w.cache.cacheMap[id]? = none

theorem Alone.of_none {id : UInt64} {w : World} (sending : ∀ c, ¬ Sending w id c)
    (gone : latest (turn id) w.log ≠ some true → w.cache.cacheMap[id]? = none) : Alone id w :=
  ⟨fun c _ hc => absurd hc (sending c), fun c hc => absurd hc (sending c),
    fun hlatest => ⟨sending, gone hlatest⟩⟩

/-- A move that begins and ends no turn of the id. -/
theorem Alone.extend {id : UInt64} {w w' : World} {new : List Event} (h : Alone id w)
    (hlog : w'.log = new ++ w.log) (quiet : ∀ e ∈ new, turn id e = none)
    (sending : ∀ c, Sending w' id c → Sending w id c)
    (hcache : w.cache.cacheMap[id]? = none → w'.cache.cacheMap[id]? = none) : Alone id w' := by
  refine ⟨fun c c' hc hc' => h.single c c' (sending c hc) (sending c' hc'),
    fun c hc => hcache (h.apart c (sending c hc)), fun hlatest => ?_⟩
  rw [hlog, latest_append quiet] at hlatest
  obtain ⟨hnone, hfree⟩ := h.gone hlatest
  exact ⟨fun c hc => hnone c (sending c hc), hcache hfree⟩

/-- An entry with the id leaves. -/
theorem Alone.left {id : UInt64} {w w' : World} (h : Alone id w) {m : QueuedMessage}
    (hm : w.cache.cacheMap[id]? = some m) (sending : ∀ c, Sending w' id c → Sending w id c)
    (hcache : w'.cache.cacheMap[id]? = none) : Alone id w' := by
  refine .of_none (fun c hc => ?_) fun _ => hcache
  have hfree := h.apart c (sending c hc)
  rw [hm] at hfree
  cases hfree

theorem alone_awaitMember {id : UInt64} {w : World} {call : Nat} {rest : List Json}
    {m : QueuedMessage} (inTurn : InTurn id (w.awaitMember call m rest).log) (h : Alone id w) :
    Alone id (w.awaitMember call m rest) := by
  have hlog : (w.awaitMember call m rest).log = [.memberLookup call rest.length m.id] ++ w.log := rfl
  have sending : ∀ c, Sending (w.awaitMember call m rest) id c →
      c = call ∧ m.id = id ∨ Sending w id c := by
    rintro c ⟨frame, hf, hid⟩
    rw [World.awaitMember, Std.ExtTreeMap.getElem?_insert] at hf
    split at hf
    · rename_i heq
      rw [Std.LawfulEqCmp.compare_eq_iff_eq] at heq
      cases hf
      exact .inl ⟨heq.symm, hid⟩
    · exact .inr ⟨frame, hf, hid⟩
  by_cases hid : m.id = id
  · have begins : turn id (.memberLookup call rest.length m.id) = some true := if_pos hid
    obtain ⟨hnone, hfree⟩ := h.gone (inTurn.1 begins)
    have here : ∀ c, Sending (w.awaitMember call m rest) id c → c = call := fun c hc =>
      (sending c hc).elim And.left fun hold => absurd hold (hnone c)
    refine ⟨fun c c' hc hc' => (here c hc).trans (here c' hc').symm, fun _ _ => hfree, ?_⟩
    intro hlatest
    exact absurd (latest_cons_of_some begins w.log) hlatest
  · refine h.extend hlog (fun e he => ?_) (fun c hc => ?_) fun hfree => hfree
    · rw [List.mem_singleton.mp he]
      exact if_neg hid
    · exact (sending c hc).resolve_left fun hand => hid hand.2

theorem alone_sent {id : UInt64} {w : World} {call : Nat} {frame : Frame} {m : QueuedMessage}
    (hf : w.calls[call]? = some frame) (hid : m.id = frame.message.id) (h : Alone id w) :
    Alone id ((w.sent call frame.rest.length m).store m) := by
  obtain ⟨new, hlog, hnew⟩ := sent_log w call frame.rest.length m
  have quiet : ∀ e ∈ new, turn id e = none := by
    intro e he
    rcases hnew e he with rfl | rfl <;> rfl
  have sending : ∀ c, Sending ((w.sent call frame.rest.length m).store m) id c →
      c ≠ call ∧ Sending w id c := by
    rintro c ⟨f, hc, hid⟩
    simp only [World.store, World.sent, Std.ExtTreeMap.getElem?_erase,
      Std.LawfulEqCmp.compare_eq_iff_eq] at hc
    split at hc
    · cases hc
    · rename_i hne
      exact ⟨fun heq => hne heq.symm, f, hc, hid⟩
  by_cases hm : m.id = id
  · have here : Sending w id call := ⟨frame, hf, hid.symm.trans hm⟩
    refine .of_none (fun c hc => ?_) fun hlatest => ?_
    · obtain ⟨hne, hc⟩ := sending c hc
      exact hne (h.single c call hc here)
    · rw [hlog, latest_append quiet] at hlatest
      exact absurd here ((h.gone hlatest).1 call)
  · refine h.extend hlog quiet (fun c hc => (sending c hc).2) fun hfree => ?_
    rw [World.store, ProcessedMessageCache.getElem?_store, if_neg fun hand => hm hand.1.symm]
    exact hfree

theorem alone_finish {id : UInt64} {w : World} (call : Nat) (body : Json) (acc : Accounted w)
    (h : Alone id w) : Alone id ((w.sweep.request call body).emit (.returned call)) := by
  have sending : ∀ c, Sending ((w.sweep.request call body).emit (.returned call)) id c →
      Sending w id c := fun _ hc => hc
  by_cases hgarbage : ∃ m ∈ w.cache.garbage, m.id = id
  · obtain ⟨m, hm, hid⟩ := hgarbage
    obtain ⟨k, q, hq, rfl, h4⟩ := ProcessedMessageCache.mem_garbage.mp hm
    obtain rfl : k = id := (acc.entries k q hq).key.symm.trans hid
    refine h.left hq sending ?_
    change w.cache.clearGarbageAndIncreaseTries.cacheMap[k]? = none
    rw [QueuedMessage.retry_tries] at h4
    rw [ProcessedMessageCache.getElem?_clearGarbageAndIncreaseTries, hq, Option.bind_some]
    exact if_pos h4
  · refine h.extend (finish_log w call body) (fun e he => ?_) sending fun hfree => ?_
    · rcases mem_finishEvents he with rfl | rfl | ⟨m, hm, rfl⟩
      · rfl
      · rfl
      · exact if_neg fun hid => hgarbage ⟨m, hm, hid⟩
    · change w.cache.clearGarbageAndIncreaseTries.cacheMap[id]? = none
      rw [ProcessedMessageCache.getElem?_clearGarbageAndIncreaseTries, hfree, Option.bind_none]

theorem alone_answer {id : UInt64} {w : World} {n : Nat} {r : Report}
    {response : HttpRequestCompletion} (acc : Accounted w) (h : Alone id w) :
    Alone id (w.answer n r response) := by
  have sending : ∀ c, Sending (w.answer n r response) id c → Sending w id c := fun _ hc => hc
  by_cases hleaves : ∃ m ∈ w.acknowledgedBy r response, m.id = id
  · obtain ⟨m, hm, rfl⟩ := hleaves
    unfold acknowledgedBy at hm
    split at hm
    · rename_i hacc
      obtain ⟨hsnapshot, hused⟩ := List.mem_filter.mp hm
      obtain ⟨k, hk⟩ := ProcessedMessageCache.mem_snapshot.mp hsnapshot
      obtain rfl : m.id = k := (acc.entries k m hk).key
      refine h.left hk sending ?_
      rw [World.answer, ProcessedMessageCache.getElem?_reported hacc,
        if_pos (of_decide_eq_true hused)]
    · cases hm
  · refine h.extend (answer_log w n r response) (fun e he => ?_) sending fun hfree => ?_
    · rcases List.mem_append.mp he with he | he
      · obtain ⟨m, hm, rfl⟩ := List.mem_map.mp he
        exact if_neg fun hid => hleaves ⟨m, hm, hid⟩
      · rw [List.mem_singleton.mp he]
        rfl
    · cases hacc : ProcessedMessageCache.accepted response with
      | false => rw [World.answer, ProcessedMessageCache.reported_of_not_accepted hacc, hfree]
      | true => rw [World.answer, ProcessedMessageCache.getElem?_reported hacc, hfree, ite_self]

theorem alone_closed (id : UInt64) : MoveClosed P (fun _ _ => True) fun w =>
    Accounted w ∧ (InTurn id w.log → Alone id w) := by
  apply MoveClosed.under accounted_closed
  intro w w' move acc h inTurn
  have one : ∀ {e : Event} {v : World}, turn id e = none → v.log = e :: w.log →
      v.calls = w.calls → v.cache = w.cache → InTurn id v.log → Alone id v := by
    intro e v quiet hlog hcalls hcache inTurn
    have hlog : v.log = [e] ++ w.log := hlog
    refine (h (InTurn.older (hlog ▸ inTurn))).extend hlog
      (fun e' he' => List.mem_singleton.mp he' ▸ quiet) (fun c hc => ?_) fun hfree => ?_
    · rwa [Sending, hcalls] at hc
    · rwa [hcache]
  cases move with
  | deliver messages hp => exact one rfl rfl rfl rfl inTurn
  | skip hp empty => exact one rfl rfl rfl rfl inTurn
  | rejected hr he => exact one rfl rfl rfl rfl inTurn
  | awaitMember hp hr hm => exact alone_awaitMember inTurn (h inTurn.2)
  | @awaitDirectMessage _ call frame m hp hf hawait hid htries =>
    have hlog : (w.awaitDirectMessage call m frame.rest).log =
        [.directMessage call frame.rest.length m.id] ++ w.log := rfl
    refine (h inTurn.2).extend hlog (fun e he => ?_) ?_ fun hfree => hfree
    · rw [List.mem_singleton.mp he]
      rfl
    · rintro c ⟨f, hc, hfid⟩
      rw [World.awaitDirectMessage, Std.ExtTreeMap.getElem?_insert] at hc
      split at hc
      · rename_i heq
        rw [Std.LawfulEqCmp.compare_eq_iff_eq] at heq
        subst heq
        cases hc
        exact ⟨frame, hf, hid.symm.trans hfid⟩
      · exact ⟨f, hc, hfid⟩
  | @sent _ call _ _ _ frame m hq hp hf hsend hid htries =>
    obtain ⟨new, hlog, -⟩ := store_log (w.sent call frame.rest.length m) m
    have before : InTurn id (w.sent call frame.rest.length m).log := InTurn.older (hlog ▸ inTurn)
    exact alone_sent hf.suspended hid (h before.2)
  | finish now hr =>
    exact alone_finish _ _ acc (h (InTurn.older (finish_log w _ _ ▸ inTurn)))
  | answer hq hr => exact alone_answer acc (h (InTurn.older (answer_log w _ _ _ ▸ inTurn)))
  | lose hq hu =>
    exact (h inTurn).extend (lose_log w _) (by simp) (fun _ hc => hc) fun hfree => hfree

/-- **An id that is listed in turn has one send at a time.** -/
theorem alone {w : World} (hw : (system P).Reachable w) {id : UInt64}
    (inTurn : InTurn id w.log) : Alone id w := by
  refine ((alone_closed id).reachable ⟨accounted ⟨[], rfl⟩, fun _ => ?_⟩ hw).2 inTurn
  refine .of_none (fun c hc => ?_) fun _ => by simp [system]
  obtain ⟨frame, hf, -⟩ := hc
  simp [system] at hf

/-- **A delivered element is sent at most once, and nothing else is.** In every
reachable world no two direct messages belong to the same element, and each belongs
to an element an acknowledgement delivered. When a step issues one for an id that at
most one element had, no other call is sending that id and no outcome of it is
cached; and so it is for an id that has been listed in turn. -/
theorem direct_messages (P : Platform) {w : World} (hw : (system P).Reachable w) :
    (w.log.filterMap directMessageTag).Nodup ∧
    (∀ call position id, .directMessage call position id ∈ w.log → Listed P w call position id) ∧
    ∀ l w' new call position id, step P w l = some w' → w'.log = new ++ w.log →
      .directMessage call position id ∈ new →
      w.log.countP (isLookupOf id) ≤ 1 ∨ InTurn id w.log →
      (∀ (c : Nat) frame, w.calls[c]? = some frame → frame.message.id = id → c = call) ∧
        w.cache.cacheMap[id]? = none := by
  have h := delivered hw
  refine ⟨h.once, fun call position id hmem => h.listed _ _ _ (h.looked _ _ _ hmem), ?_⟩
  intro l w' new call position id hstep hlog hmem hone
  obtain ⟨frame, hf, rfl, rfl⟩ := issued_by hstep hlog hmem
  have hf : Sending w frame.message.id call := ⟨frame, hf, rfl⟩
  have halone := alone hw (hone.elim inTurn_of_countP id)
  exact ⟨fun c f hc hid => halone.single c call ⟨f, hc, hid⟩ hf, halone.apart call hf⟩

instance (id : UInt64) : ∀ log, Decidable (InTurn id log)
  | [] => inferInstanceAs (Decidable True)
  | e :: older =>
      have : Decidable (InTurn id older) := instDecidableInTurn id older
      inferInstanceAs (Decidable ((turn id e = some true →
        latest (turn id) older ≠ some true) ∧ InTurn id older))

/-- A message whose outcome was acknowledged is listed again and looked up; its direct message
is due. -/
def lookedUp : World :=
  ((system samplePlatform).run {} (acceptedRun ++ [listMessage 7 4])).get (by decide +kernel)

theorem direct_messages_lookedUp :
    (∀ (c : Nat) frame, lookedUp.calls[c]? = some frame → frame.message.id = 7 → c = 1) ∧
      lookedUp.cache.cacheMap[(7 : UInt64)]? = none :=
  (direct_messages samplePlatform (w := lookedUp) ⟨_, (Option.some_get _).symm⟩).2.2
    (completeWith 1 200 5) ((step samplePlatform lookedUp (completeWith 1 200 5)).get
      (by decide +kernel)) [.directMessage 1 0 7] 1 0 7 (Option.some_get _).symm
    (by decide +kernel) List.mem_cons_self (.inr (by decide +kernel))

/-! ### Listing an id again -/

/-- The API has accepted a report that contains the id. -/
def acceptedFor (w : World) (id : UInt64) : Bool :=
  w.log.any fun
    | .answered n response =>
        ProcessedMessageCache.accepted response && reportHas w.log n fun m => m.id = id
    | _ => false

/-- An API that lists an id only until it has accepted a report about it. -/
def lawful (P : Platform) (w : World) : Label → Bool
  | .deliver (.array elements) now _ =>
      elements.all fun element =>
        match QueuedMessage.ofJson P now 0 element with
        | .ok m => !acceptedFor w m.id
        | .error _ => true
  | _ => true

/-- No direct message is issued for an id that another call is sending or that is cached. -/
def NoDuplicates (P : Platform) : Prop :=
  ∀ labels w l w' call position id,
    (system P).Along (fun w l _ => lawful P w l = true) (system P).start labels →
    (system P).run (system P).start labels = some w → step P w l = some w' →
    w'.log = .directMessage call position id :: w.log →
    (∀ (c : Nat) frame, w.calls[c]? = some frame → frame.message.id = id → c = call) ∧
      w.cache.cacheMap[id]? = none

/-- The report about a delivered message is refused, and the message is listed again. -/
def listedAgain : List Label :=
  [listMessage 7 1, completeWith 0 200 2, completeWith 0 200 3, .answer 0 { status := 500 },
    listMessage 7 31]

def relisted : World := ((system samplePlatform).run {} listedAgain).get (by decide +kernel)

def sentAgain : World := (step samplePlatform relisted (completeWith 1 200 32)).get (by decide +kernel)

/-- **A message is sent twice.** -/
theorem not_noDuplicates : ¬ NoDuplicates samplePlatform := by
  intro h
  have free := h listedAgain relisted (completeWith 1 200 32) sentAgain 1 0 7 (by decide +kernel)
    (Option.some_get _).symm (Option.some_get _).symm (by decide +kernel)
  exact absurd free.2 (by decide +kernel)

end Messages
