import CordactylBot.AcknowledgePayload.Payload
import CordactylBot.JsonWrapper.Text
import CordactylBot.Dpp.Rest.Text

/-!
The texts of the acknowledgements.

An acknowledgement is posted as the text of what was pulled. The panel reads from it what it
would have got from merging the texts of the sources itself (`pulled_text`): nothing of a
merge depends on where the texts are read.
-/

namespace AcknowledgePayload

open Json

variable {P : Platform} {F : FloatText}

/-- A value `operator[]` has added members to. -/
structure Built (F : FloatText) (j : Json) : Prop where
  kept : Kept F j
  mergeable : j.Mergeable

theorem Built.null : Built F .null := ⟨.null, trivial⟩

theorem Built.put {j value : Json} (hj : Built F j) (key : String) (hv : Kept F value) :
    Built F (j.put key value) :=
  ⟨hj.kept.put hj.mergeable key hv, mergeable_put j key value⟩

theorem Built.putIf {j value : Json} (hj : Built F j) (condition : Bool) (key : String)
    (hv : Kept F value) : Built F (putIf condition j key value) := by
  unfold AcknowledgePayload.putIf
  split
  · exact hj.put key hv
  · exact hj

theorem kept_applicationValue (app : Application) : Kept F (applicationValue app) := by
  have uris : Kept F (.array (app.redirectUris.map .string)) := by
    apply Kept.array
    intro v hv
    obtain ⟨uri, -, rfl⟩ := List.mem_map.mp hv
    exact .string uri
  refine (Built.put ?_ "bot_public" (.boolean app.botPublic)).kept
  refine Built.putIf ?_ _ "custom_install_url" (.string app.customInstallUrl)
  refine Built.putIf ?_ _ "redirect_uris" uris
  refine Built.putIf ?_ _ "flags" (.numberUnsigned app.flags.toUInt64)
  refine Built.putIf ?_ _ "icon" (.string app.icon)
  refine Built.putIf ?_ _ "name" (.string app.name)
  refine (Built.null.put "bot" ?_).put "id" (.string (toString app.id))
  exact ((Built.null.put "id" (.string (toString app.bot.id))).put "username"
    (.string app.bot.username)).kept

/-- **The text of an acknowledgement reads as the merge of what the texts of its sources
read as**, with the application put over it. -/
theorem pulled_text (library : P.UsesLibrary F) {o : Object} (ho : (system P).Reachable o)
    (prints : ∀ source, .merged source ∈ o.log → Prints F source) {batch : List Json}
    {result : Json} (h : (batch, result) ∈ pulls o.log) :
    (∀ source ∈ batch, P.parse (P.dump source) = .ok source.reread) ∧
      ∃ app, result = (mergeAll batch).put "application" (applicationValue app) ∧
        P.parse (P.dump result) =
          .ok ((mergeAll (batch.map reread)).put "application" (applicationValue app)) := by
  have tracked := payloadTracked ho
  have ordered : ∀ source ∈ batch, source.Ordered := fun source hs =>
    tracked.ordered source (mem_of_mem_pulls h hs)
  have printed : ∀ source ∈ batch, Prints F source := fun source hs =>
    prints source (mem_of_mem_pulls h hs)
  refine ⟨fun source hs => library.reparsed (ordered source hs) (printed source hs), ?_⟩
  obtain ⟨app, rfl⟩ := tracked.pulled batch result h
  have kept := kept_applicationValue (F := F) app
  have hmergeable := mergeAll_mergeable batch
  refine ⟨app, rfl, ?_⟩
  rw [library.reparsed (put_ordered hmergeable (mergeAll_ordered ordered) kept.ordered)
    ((hereditary_prints F).put ((hereditary_prints F).mergeAll printed) kept.prints),
    put_reread hmergeable, reread_mergeAll, kept.reread]

/-- A source whose number comes back under another kind. -/
def signedSource : OrderedJson :=
  ⟨.object [("a", .array [.numberInteger 5])], singleton_ordered trivial⟩

def nullSource : OrderedJson :=
  ⟨.object [("a", .array [.null])], singleton_ordered trivial⟩

/-- Both sources merged, and a pull. -/
def signedPulled : Object :=
  ((system (.ofLibrary oneHalf)).run {} [.merge signedSource, .merge nullSource, .pull]).get
    (by decide +kernel)

theorem pulled_text_signedPulled :
    ∃ result app, (Platform.ofLibrary oneHalf).parse ((Platform.ofLibrary oneHalf).dump result) =
      .ok ((mergeAll [.object [("a", .array [.numberUnsigned 5])], nullSource.value]).put
        "application" (applicationValue app)) := by
  have hlog : ∃ result, signedPulled.log =
      [.pulled result, .merged nullSource.value, .merged signedSource.value] := ⟨_, rfl⟩
  obtain ⟨result, hlog⟩ := hlog
  have prints : ∀ source, .merged source ∈ signedPulled.log → Prints oneHalf source := by
    intro source hs
    rw [hlog] at hs
    rcases List.mem_cons.mp hs with hs | hs
    · cases hs
    · rcases List.mem_cons.mp hs with hs | hs
      · cases hs
        exact ⟨⟨trivial, trivial⟩, trivial⟩
      · cases List.mem_singleton.mp hs
        exact ⟨⟨trivial, trivial⟩, trivial⟩
  have hpulls : ([signedSource.value, nullSource.value], result) ∈ pulls signedPulled.log := by
    rw [hlog]
    exact List.mem_singleton_self _
  obtain ⟨-, app, -, htext⟩ := pulled_text (Platform.usesLibrary_ofLibrary oneHalf)
    (o := signedPulled) ⟨_, (Option.some_get _).symm⟩ prints
    hpulls
  exact ⟨result, app, htext⟩

end AcknowledgePayload
