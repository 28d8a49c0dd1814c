import CordactylBot.AcknowledgePayload.Application
import CordactylBot.Messages.System

/-!
What a report says about a send.

A send that recorded no error is reported as successful. It records one exactly when
`is_error()` is true of a completion, which looks at status and body only. So a direct
message whose request timed out, was redirected or failed in transport is reported as
sent, unless its body happens to look like an error of Discord.

* `misjudged` — the completions `is_error()` is wrong about.
* `report_truthful` — for which completions the report tells the truth.
-/

namespace QueuedMessage

variable (P : Platform)

/-- `send_to_discord` from its start to its end: the message afterwards, and whether the
direct message was issued. -/
def sendWith (t₁ t₂ : Int) (message : QueuedMessage) (lookup direct : HttpRequestCompletion) :
    QueuedMessage × Bool :=
  match sendToDiscord P t₁ .memberLookup message (P.httpInfo lookup) with
  | .returned m => (m, false)
  | .suspended m =>
      match sendToDiscord P t₂ .directMessage m (P.httpInfo direct) with
      | .returned m => (m, true)
      | .suspended m => (m, true)

/-- An entry says whether its message was delivered, and carries an error if not. -/
structure Truthful (entry : Json) (delivered : Bool) : Prop where
  told : entry.find? "was_successfully_sent" = some (.boolean true) ↔ delivered = true
  error : delivered = false → ∃ members, entry.find? "error" = some (.object members)

/-- Every report about the send is truthful: the message counts as delivered when its
direct message was issued and completed with `h_success` and a 2xx status. -/
def TellsTruth (t₁ t₂ : Int) (message : QueuedMessage) (lookup direct : HttpRequestCompletion) :
    Prop :=
  let (sent, issued) := sendWith P t₁ t₂ message lookup direct
  ∀ now tries, ∃ entry, ProcessedMessageCache.reportEntry P now { sent with tries } = .ok entry ∧
    Truthful entry (issued && AcknowledgePayload.succeeded direct)

/-! ### When `is_error()` is wrong -/

/-- `is_error()` is wrong about the completion: it succeeded and its body looks like an
error, or it did not and neither its status nor its body shows. -/
def misjudged (direct : HttpRequestCompletion) : Bool :=
  if AcknowledgePayload.succeeded direct then
    direct.status ≠ 204 && P.errorShaped (P.httpInfo direct).body
  else
    direct.status < 400 && (direct.status = 204 || !P.errorShaped (P.httpInfo direct).body)

theorem misjudged_iff (direct : HttpRequestCompletion) :
    misjudged P direct = false ↔
      (P.isError (P.httpInfo direct) = false ↔ AcknowledgePayload.succeeded direct = true) := by
  rw [← Bool.not_eq_true (P.isError _), P.isError_iff, Platform.httpInfo_status]
  unfold misjudged
  split
  · rename_i hsucceeded
    have hstatus : ¬ 400 ≤ direct.status := by
      simp only [AcknowledgePayload.succeeded, Bool.and_eq_true, decide_eq_true_eq] at hsucceeded
      exact fun h => absurd hsucceeded.2.2 (UInt16.not_lt.mpr (UInt16.le_trans (by decide) h))
    simp [hsucceeded, hstatus]
  · rename_i hsucceeded
    rw [Bool.not_eq_true] at hsucceeded
    have hstatus : ¬ direct.status < 400 ↔ 400 ≤ direct.status := UInt16.not_lt
    simp only [hsucceeded, Bool.false_eq_true, iff_false, not_not, Bool.and_eq_false_iff,
      decide_eq_false_iff_not, Bool.or_eq_false_iff, Bool.not_eq_false', hstatus, ne_eq]

/-! ### The report about a send -/

/-- The two ways a send ends: its lookup was an error, or its direct message was issued. -/
theorem sendWith_cases (t₁ t₂ : Int) {message : QueuedMessage} (fresh : message.error = none)
    (lookup direct : HttpRequestCompletion) :
    let (sent, issued) := sendWith P t₁ t₂ message lookup direct
    issued = !P.isError (P.httpInfo lookup) ∧
      (sent.error = none ↔ issued = true ∧ P.isError (P.httpInfo direct) = false) := by
  unfold sendWith sendToDiscord
  cases hlookup : P.isError (P.httpInfo lookup) with
  | true => simp
  | false =>
    cases hdirect : P.isError (P.httpInfo direct) with
    | true => simp
    | false => simpa using fresh

theorem find?_entryJson_success (now : Int) (message : QueuedMessage) :
    (ProcessedMessageCache.entryJson P now message).find? "was_successfully_sent" =
      some (.boolean message.error.isNone) := by
  unfold ProcessedMessageCache.entryJson
  cases message.error <;> rfl

theorem find?_entryJson_error {now : Int} {message : QueuedMessage} (h : message.error ≠ none) :
    ∃ members, (ProcessedMessageCache.entryJson P now message).find? "error" =
      some (.object members) := by
  obtain ⟨error, herror⟩ := Option.ne_none_iff_exists'.mp h
  rw [ProcessedMessageCache.entryJson, herror]
  exact ⟨_, rfl⟩

/-- The entry about a message is truthful when the message has an error exactly if it was
not delivered. -/
theorem entryJson_truthful_iff (now : Int) (message : QueuedMessage) (delivered : Bool) :
    Truthful (ProcessedMessageCache.entryJson P now message) delivered ↔
      (message.error = none ↔ delivered = true) := by
  have told : (ProcessedMessageCache.entryJson P now message).find? "was_successfully_sent" =
      some (.boolean true) ↔ message.error = none := by
    rw [find?_entryJson_success, Option.some.injEq, Json.boolean.injEq, Option.isNone_iff_eq_none]
  constructor
  · rintro ⟨h, -⟩
    exact told.symm.trans h
  · intro h
    refine ⟨told.trans h, fun hno => ?_⟩
    apply find?_entryJson_error P
    rw [ne_eq, h, hno]
    exact Bool.false_ne_true

/-- **When a report tells the truth**: the lookup was an error, or `is_error()` is right
about the direct message. -/
theorem report_truthful (now₀ : Int) (storage : UInt64) (element : Json) (message : QueuedMessage)
    (hm : ofJson P now₀ storage element = .ok message) (t₁ t₂ : Int)
    (lookup direct : HttpRequestCompletion) :
    TellsTruth P t₁ t₂ message lookup direct ↔
      P.isError (P.httpInfo lookup) = true ∨ misjudged P direct = false := by
  have fresh := (ofJson_fresh P hm).2.1
  have hcases := sendWith_cases P t₁ t₂ fresh lookup direct
  unfold TellsTruth
  generalize sendWith P t₁ t₂ message lookup direct = result at hcases
  obtain ⟨sent, issued⟩ := result
  obtain ⟨hissued, herror⟩ := hcases
  have entries : (∀ now tries, ∃ entry,
      ProcessedMessageCache.reportEntry P now { sent with tries } = .ok entry ∧
        Truthful entry (issued && AcknowledgePayload.succeeded direct)) ↔
      (sent.error = none ↔ (issued && AcknowledgePayload.succeeded direct) = true) := by
    simp only [ProcessedMessageCache.reportEntry_eq, Except.ok.injEq, exists_eq_left',
      entryJson_truthful_iff, forall_const]
  refine entries.trans ?_
  rw [herror, hissued, misjudged_iff]
  cases P.isError (P.httpInfo lookup) <;> simp

/-- A message as it is constructed from an element. -/
def constructed : QueuedMessage :=
  { id := 7, guildId := 5, recipient := 9, embed := {}, processedAt := 1 }

theorem report_truthful_delivered :
    TellsTruth Messages.samplePlatform 2 3 constructed { status := 200, body := "\x7b\x7d" }
      { status := 200, body := "\x7b\x7d" } :=
  (report_truthful Messages.samplePlatform 1 0 (Messages.sampleMessage 7) constructed
    (by decide +kernel) 2 3 _ _).mpr (.inr (by decide +kernel))

/-- **A direct message whose request timed out is reported as sent.** -/
theorem report_untruthful :
    ¬ TellsTruth Messages.samplePlatform 2 3 constructed { status := 200, body := "\x7b\x7d" }
      { status := 0, error := .connection } := by
  intro h
  obtain ⟨entry, hentry, truthful⟩ := h 4 1
  have accepted : entry.find? "was_successfully_sent" = some (.boolean true) := by
    cases hentry
    rfl
  exact absurd (truthful.told.mp accepted) (by decide)

end QueuedMessage
