import CordactylBot.Messages.Delivery
import CordactylBot.QueuedMessages.Grammar

/-!
Which ids are sent and reported.

A message that is sent or reported was made from an element an acknowledgement
delivered. So in a run that delivers nothing the constructor misreads, every id that is
sent or reported is one the panel listed (`constructor_exact`).
-/

namespace Messages

open World

variable {P : Platform}

/-- Every id in a report was looked up. -/
def ReportedLooked (w : World) : Prop :=
  ∀ call n entries m, .reported call n entries ∈ w.log → m ∈ entries →
    ∃ c position, .memberLookup c position m.id ∈ w.log

theorem ReportedLooked.extend {w w' : World} {new : List Event} (h : ReportedLooked w)
    (hlog : w'.log = new ++ w.log)
    (other : ∀ e ∈ new, ∀ call n entries, e ≠ .reported call n entries) : ReportedLooked w' := by
  intro call n entries m hrep hm
  rcases List.mem_append.mp (hlog ▸ hrep) with he | he
  · exact absurd rfl (other _ he call n entries)
  · obtain ⟨c, position, hlook⟩ := h call n entries m he hm
    exact ⟨c, position, hlog ▸ List.mem_append_right _ hlook⟩

theorem ReportedLooked.cons {w w' : World} {e : Event} (h : ReportedLooked w)
    (hlog : w'.log = e :: w.log) (other : ∀ call n entries, e ≠ .reported call n entries) :
    ReportedLooked w' := by
  have hlog : w'.log = [e] ++ w.log := hlog
  exact h.extend hlog fun e' he' => List.mem_singleton.mp he' ▸ other

/-- The entries of a new report are swept entries of the cache. -/
theorem reportedLooked_finish {w : World} {call : Nat} {now : Int} (hd : Delivered P w)
    (ha : Accounted w) (h : ReportedLooked w) :
    ReportedLooked ((w.sweep.request call (.object [("messages",
      .array (w.sweep.cache.snapshot.map (ProcessedMessageCache.entryJson P now)))])).emit
        (.returned call)) := by
  intro c n entries m hrep hm
  have old : ∀ {e}, e ∈ w.log → e ∈ finishEvents w call ++ w.log := List.mem_append_right _
  rw [finish_log] at hrep ⊢
  rcases List.mem_append.mp hrep with he | he
  · rcases mem_finishEvents he with heq | heq | ⟨q, -, heq⟩
    · cases heq
    · cases heq
      obtain ⟨id, hid⟩ := ProcessedMessageCache.mem_snapshot.mp hm
      obtain ⟨q, hq, -, rfl⟩ := ProcessedMessageCache.swept_eq_some.mp hid
      obtain ⟨c, position, hlook, -⟩ := hd.cached id q hq
      have hkey : q.retry.id = id := (ha.entries id q hq).key
      exact ⟨c, position, old (hkey ▸ hlook)⟩
    · cases heq
  · obtain ⟨c, position, hlook⟩ := h c n entries m he hm
    exact ⟨c, position, old hlook⟩

theorem reportedLooked_closed : MoveClosed P (fun _ _ => True) fun w =>
    (Delivered P w ∧ Accounted w) ∧ ReportedLooked w := by
  apply MoveClosed.under fun _ _ move h => ⟨delivered_closed move h.1, accounted_closed move h.2⟩
  intro w w' move hJ h
  cases move with
  | deliver messages hp => exact h.cons rfl (by simp)
  | skip hp empty => exact h.cons rfl (by simp)
  | rejected hr he => exact h.cons rfl (by simp)
  | awaitMember hp hr hm => exact h.cons rfl (by simp)
  | awaitDirectMessage hp hf hawait hid htries => exact h.cons rfl (by simp)
  | @sent _ call _ _ _ frame m hq hp hf hsend hid htries =>
    obtain ⟨new, hlog, hnew⟩ := store_log (w.sent call frame.rest.length m) m
    have sent : ReportedLooked (w.sent call frame.rest.length m) := h.cons rfl (by simp)
    exact sent.extend hlog fun e he => hnew e he ▸ by simp
  | finish now hr => exact reportedLooked_finish hJ.1 hJ.2 h
  | answer hq hr =>
    apply h.extend (answer_log w _ _ _)
    intro e he
    rcases mem_answerEvents he with ⟨m, rfl⟩ | rfl <;> simp
  | lose hq hu => exact h.extend (lose_log _ _) (by simp)

theorem reported_looked {w : World} (hw : (system P).Reachable w) : ReportedLooked w := by
  refine (reportedLooked_closed.reachable ⟨⟨delivered_start, ?_⟩, ?_⟩ hw).2
  · exact accounted ⟨[], rfl⟩
  · intro call n entries m hrep
    cases hrep

/-- The panel listed a message with this id. -/
def PanelListed (w : World) (id : UInt64) : Prop :=
  ∃ call elements element guildId recipient, .delivered call (.array elements) ∈ w.log ∧
    element ∈ elements ∧ QueuedMessage.Grammatical element id guildId recipient

/-- Without misread elements, an element that became a message was one. -/
theorem Listed.panelListed {w : World} {call position : Nat} {id : UInt64}
    (read : ∀ call elements, .delivered call (.array elements) ∈ w.log → ∀ element ∈ elements,
      ∀ storage, ¬ QueuedMessage.Misread P storage element)
    (h : Listed P w call position id) : PanelListed w id := by
  obtain ⟨done, element, rest, now, storage, m, hdel, -, hm, rfl⟩ := h
  have hmem : element ∈ done ++ element :: rest := List.mem_append_right _ List.mem_cons_self
  have hexact := (QueuedMessage.exact_iff P now storage element).mpr (read _ _ hdel element hmem storage)
  exact ⟨call, _, element, _, _, hdel, hmem, hexact.returns m hm⟩

/-- **When the constructor is exact.** On each value it is exact if and only if it does
not misread it; and where no delivered element can be misread, only ids the panel listed
are sent or reported. -/
theorem constructor_exact (P : Platform) :
    (∀ now storage message, QueuedMessage.Exact P now storage message ↔
      ¬ QueuedMessage.Misread P storage message) ∧
    ∀ w, (system P).Reachable w →
      (∀ call elements, .delivered call (.array elements) ∈ w.log → ∀ element ∈ elements,
        ∀ storage, ¬ QueuedMessage.Misread P storage element) →
      (∀ call position id, .directMessage call position id ∈ w.log → PanelListed w id) ∧
        ∀ call n entries m, .reported call n entries ∈ w.log → m ∈ entries → PanelListed w m.id := by
  refine ⟨QueuedMessage.exact_iff P, fun w hw read => ?_⟩
  have hd := delivered hw
  constructor
  · intro call position id hmem
    exact (hd.listed _ _ _ (hd.looked _ _ _ hmem)).panelListed read
  · intro call n entries m hrep hm
    obtain ⟨c, position, hlook⟩ := reported_looked hw call n entries m hrep hm
    exact (hd.listed _ _ _ hlook).panelListed read

/-- A message is listed, sent and reported. -/
def listedRun : List Label :=
  [listMessage 7 1, completeWith 0 200 2, completeWith 0 200 3]

def listedWorld : World :=
  ((system samplePlatform).run {} listedRun).get (by decide +kernel)

def isDelivery : Event → Bool
  | .delivered _ _ => true
  | _ => false

theorem not_misread_sampleMessage (storage : UInt64) :
    ¬ QueuedMessage.Misread samplePlatform storage (sampleMessage 7) := by
  rintro ⟨-, -, -, -, key, hkey, hstray⟩
  have plain : ∀ key ∈ QueuedMessage.idKeys,
      QueuedMessage.stray ((sampleMessage 7).find? key) = false := by decide
  rw [plain key hkey] at hstray
  cases hstray

theorem constructor_exact_listed :
    (.directMessage 0 0 7 ∈ listedWorld.log ∧
      .reported 0 0 (listedWorld.cache.snapshot) ∈ listedWorld.log) ∧
    (∀ call position id, .directMessage call position id ∈ listedWorld.log →
      PanelListed listedWorld id) ∧
    ∀ call n entries m, .reported call n entries ∈ listedWorld.log → m ∈ entries →
      PanelListed listedWorld m.id := by
  refine ⟨by decide +kernel, (constructor_exact samplePlatform).2 listedWorld
    ⟨listedRun, (Option.some_get _).symm⟩ fun call elements hmem element helement storage => ?_⟩
  have only : listedWorld.log.filter isDelivery = [.delivered 0 (.array [sampleMessage 7])] := by
    decide +kernel
  have hdel : .delivered call (.array elements) ∈ listedWorld.log.filter isDelivery :=
    List.mem_filter.mpr ⟨hmem, rfl⟩
  rw [only, List.mem_singleton] at hdel
  cases hdel
  rw [List.mem_singleton.mp helement]
  exact not_misread_sampleMessage storage

/-- A message without an id. -/
def idless : Json :=
  .object [("embed", .object []), ("guild_id", .numberUnsigned 5), ("recipient", .numberUnsigned 9)]

/-- **A message without an id is accepted** when the storage held a number before. -/
theorem constructor_misreads : ¬ QueuedMessage.Exact samplePlatform 1 77 idless := by
  intro h
  have accepted : QueuedMessage.ofJson samplePlatform 1 77 idless =
      .ok { id := 77, guildId := 5, recipient := 9, embed := {}, processedAt := 1 } := by
    decide +kernel
  have lists := (h.returns _ accepted).id.2
  cases lists

end Messages
