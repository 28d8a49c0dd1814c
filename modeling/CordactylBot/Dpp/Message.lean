import CordactylBot.Dpp.Rest.Text
import CordactylBot.Dpp.Shape
import CordactylBot.Dpp.Timestamps
import CordactylBot.JsonWrapper.Text

/-!
Messages as they are posted (`message::to_json`).

Of a message the bot sets the channel, the content, the flags and the embeds; everything else
keeps its default. An embed is posted with less than was read: `Embed.posted` says what is
left of it, and `Message.embeds_delivered` that this is what the text of the message holds.
-/

namespace Dpp

open Json

/-! ### The source -/

/-- `j[key] = value` for each member that is set. -/
def assignEach (j : Json) : List (String × Option Json) → Except Exception Json
  | [] => .ok j
  | (key, some value) :: rest => do
      let j ← j.assign key value
      assignEach j rest
  | (_, none) :: rest => assignEach j rest

/-- A string that is only written when it is not empty. -/
def textMember (s : String) : Option Json :=
  if s ≠ "" then some (.string s) else none

def EmbedField.toJson (field : EmbedField) : Json :=
  .object [("inline", .boolean field.isInline), ("name", .string field.name),
    ("value", .string field.value)]

/-- The members of an embed, in the order they are written in. -/
def Embed.members (embed : Embed) : List (String × Option Json) :=
  [("description", textMember embed.description),
   ("title", textMember embed.title),
   ("url", textMember embed.url),
   ("color", embed.color.map fun color => .numberUnsigned color.toUInt64),
   ("footer", embed.footer.map fun footer =>
     .object [("icon_url", .string footer.iconUrl), ("text", .string footer.text)]),
   ("image", embed.image.map fun image => .object [("url", .string image.url)]),
   ("thumbnail", embed.thumbnail.map fun thumbnail => .object [("url", .string thumbnail.url)]),
   ("author", embed.author.map fun author =>
     .object [("icon_url", .string author.iconUrl), ("name", .string author.name),
       ("url", .string author.url)]),
   ("fields", if embed.fields = [] then none else some (.array (embed.fields.map EmbedField.toJson))),
   ("timestamp", if embed.timestamp = 0 then none else some (.string (tsToString embed.timestamp)))]

def Embed.toJson (embed : Embed) : Except Exception Json :=
  assignEach .null embed.members

/-- `dpp::message`, what the bot sets of it. -/
structure Message where
  channelId : UInt64 := 0
  content : String := ""
  flags : UInt16 := 0
  embeds : List Embed := []
deriving DecidableEq, Repr

/-- `m_using_components_v2`. -/
def mUsingComponentsV2 : UInt16 := 0x8000

/-- Content and embeds are only written without this flag. -/
def Message.classic (m : Message) : Bool :=
  m.flags &&& mUsingComponentsV2 = 0

/-- The members of a message, with its embeds as values. -/
def Message.members (m : Message) (embeds : List Json) : List (String × Option Json) :=
  [("channel_id", some (.string (toString m.channelId))),
   ("tts", some (.boolean false)),
   ("nonce", some (.string "")),
   ("flags", some (.numberUnsigned m.flags.toUInt64)),
   ("type", some (.numberInteger 0)),
   ("content", if m.classic then some (.string m.content) else none),
   ("allowed_mentions", some (.object [("parse", .array [])])),
   ("components", if m.classic then some (.array []) else none),
   ("attachments", some (.array [])),
   ("embeds", if m.classic then some (.array embeds) else none)]

/-- `message::to_json`. -/
def Message.toJson (m : Message) : Except Exception Json := do
  let embeds ← m.embeds.mapM Embed.toJson
  assignEach .null (m.members embeds)

/-! ### What assignments leave -/

def putSome (j : Json) (key : String) : Option Json → Json
  | some value => j.put key value
  | none => j

theorem mergeable_putSome {j : Json} (h : j.Mergeable) (key : String) (value : Option Json) :
    (putSome j key value).Mergeable := by
  cases value with
  | none => exact h
  | some value => exact mergeable_put j key value

theorem find?_putSome {j : Json} (h : j.Mergeable) (key k : String) (value : Option Json) :
    (putSome j key value).find? k = if k = key then value.or (j.find? k) else j.find? k := by
  cases value with
  | none => simp [putSome]
  | some value => rw [putSome, find?_put h, Option.some_or]

/-- The value of assignments that do not throw. -/
def putEach (j : Json) (members : List (String × Option Json)) : Json :=
  members.foldl (fun j member => putSome j member.1 member.2) j

theorem mergeable_putEach {members : List (String × Option Json)} :
    ∀ {j : Json}, j.Mergeable → (putEach j members).Mergeable := by
  induction members with
  | nil => exact fun h => h
  | cons member rest ih => exact fun h => ih (mergeable_putSome h member.1 member.2)

theorem assignEach_eq {members : List (String × Option Json)} :
    ∀ {j : Json}, j.Mergeable → assignEach j members = .ok (putEach j members) := by
  induction members with
  | nil => exact fun _ => rfl
  | cons member rest ih =>
    intro j hj
    obtain ⟨key, _ | value⟩ := member
    · exact ih hj
    · rw [assignEach, assign_eq_put hj]
      exact ih (mergeable_put j key value)

theorem lookup_of_notMem {β : Type} {members : List (String × β)} {key : String}
    (h : key ∉ members.map Prod.fst) : members.lookup key = none := by
  rw [List.lookup_eq_none_iff]
  intro member hmember
  rw [bne_iff_ne]
  rintro rfl
  exact h (List.mem_map_of_mem hmember)

/-- Members with different keys are found again. -/
theorem find?_putEach {members : List (String × Option Json)} {key : String} :
    ∀ {j : Json}, j.Mergeable → (members.map Prod.fst).Nodup →
      (putEach j members).find? key = ((members.lookup key).join).or (j.find? key) := by
  induction members with
  | nil => exact fun _ _ => rfl
  | cons member rest ih =>
    intro j hj hnodup
    rw [List.map_cons, List.nodup_cons] at hnodup
    rw [putEach, List.foldl_cons, ← putEach, ih (mergeable_putSome hj member.1 member.2) hnodup.2,
      find?_putSome hj, List.lookup_cons]
    by_cases hk : key = member.1
    · rw [hk, if_pos rfl, lookup_of_notMem hnodup.1, beq_self_eq_true]
      rfl
    · rw [if_neg hk, beq_false_of_ne hk]

/-- What assignments keep of the value they begin with, when the members have it. -/
theorem putEach_keeps {Q : Json → Prop} {members : List (String × Option Json)}
    (put : ∀ {j value : Json} {key : String}, j.Mergeable → Q j → Q value → Q (j.put key value))
    (hmembers : ∀ member ∈ members, ∀ value, member.2 = some value → Q value) :
    ∀ {j : Json}, j.Mergeable → Q j → Q (putEach j members) := by
  induction members with
  | nil => exact fun _ h => h
  | cons member rest ih =>
    intro j hj hq
    have hrest := fun m hm => hmembers m (List.mem_cons_of_mem member hm)
    rw [putEach, List.foldl_cons]
    apply ih hrest (mergeable_putSome hj member.1 member.2)
    cases hvalue : member.2 with
    | none => exact hq
    | some value => exact put hj hq (hmembers member List.mem_cons_self value hvalue)

/-! ### Embeds -/

/-- A sequence of readings that do not throw. -/
theorem mapM_ok {β γ : Type} {f : β → Except Exception γ} {g : β → γ} {xs : List β}
    (h : ∀ x ∈ xs, f x = .ok (g x)) : xs.mapM f = .ok (xs.map g) := by
  induction xs with
  | nil => rfl
  | cons x rest ih =>
    rw [List.mapM_cons, h x List.mem_cons_self, ih fun y hy => h y (List.mem_cons_of_mem _ hy)]
    rfl

/-- An embed as a value. -/
def Embed.value (embed : Embed) : Json :=
  putEach .null embed.members

theorem Embed.toJson_eq (embed : Embed) : embed.toJson = .ok embed.value :=
  assignEach_eq trivial

theorem Embed.find?_value (embed : Embed) (key : String) :
    embed.value.find? key = (embed.members.lookup key).join := by
  have null : Json.null.Mergeable := trivial
  rw [value, find?_putEach null (by simp [members]), find?_null, Option.or_none]

variable {F : FloatText}

theorem kept_textMember {s : String} {value : Json} (h : textMember s = some value) :
    Kept F value := by
  unfold textMember at h
  split at h
  · cases h
    exact .string s
  · cases h

theorem kept_field (field : EmbedField) : Kept F field.toJson := by
  apply Kept.object
  · simp only [List.map_cons, List.map_nil]
    decide +kernel
  · simp only [List.forall_mem_cons]
    exact ⟨.boolean _, .string _, .string _, by simp⟩

/-- A member that is kept if it is written. -/
def KeptMember (F : FloatText) (value : Option Json) : Prop :=
  ∀ v, value = some v → Kept F v

theorem keptMember_map {β : Type} {value : Option β} {write : β → Json}
    (h : ∀ x, Kept F (write x)) : KeptMember F (value.map write) := by
  intro v hv
  obtain ⟨x, -, rfl⟩ := Option.map_eq_some_iff.mp hv
  exact h x

theorem keptMember_ite {c : Prop} [Decidable c] {v : Json} (h : Kept F v) :
    KeptMember F (if c then none else some v) := by
  intro v' hv
  split at hv
  · cases hv
  · cases hv
    exact h

theorem kept_strings (members : List (String × String))
    (sorted : (members.map Prod.fst).Pairwise (· < ·)) :
    Kept F (.object (members.map fun m => (m.1, .string m.2))) := by
  apply Kept.object
  · rwa [List.map_map]
  · intro m hm
    obtain ⟨m', -, rfl⟩ := List.mem_map.mp hm
    exact .string m'.2

theorem kept_embed (embed : Embed) : Kept F embed.value := by
  have null : Json.null.Mergeable := trivial
  refine putEach_keeps (fun hm hj hv => hj.put hm _ hv) ?_ null .null
  have members : ∀ member ∈ embed.members, KeptMember F member.2 := by
    simp only [Embed.members, List.forall_mem_cons]
    refine ⟨fun _ => kept_textMember, fun _ => kept_textMember, fun _ => kept_textMember,
      keptMember_map fun _ => .numberUnsigned _, keptMember_map fun footer => ?_,
      keptMember_map fun image => ?_, keptMember_map fun thumbnail => ?_,
      keptMember_map fun author => ?_, keptMember_ite (.array ?_), keptMember_ite (.string _),
      by simp⟩
    · exact kept_strings [("icon_url", footer.iconUrl), ("text", footer.text)]
        (by simp only [List.map_cons, List.map_nil]; decide +kernel)
    · exact kept_strings [("url", image.url)] (List.pairwise_singleton _ _)
    · exact kept_strings [("url", thumbnail.url)] (List.pairwise_singleton _ _)
    · exact kept_strings [("icon_url", author.iconUrl), ("name", author.name), ("url", author.url)]
        (by simp only [List.map_cons, List.map_nil]; decide +kernel)
    · intro v hv
      obtain ⟨field, -, rfl⟩ := List.mem_map.mp hv
      exact kept_field field
  exact members

/-! ### What is left of an embed -/

/-- An image of which only the address is known. -/
def EmbedImage.posted (image : EmbedImage) : EmbedImage :=
  { url := image.url, height := 0, width := 0, proxyUrl := "", loadingState := 0,
    contentType := "", placeholder := "", placeholderVersion := 0, flags := 0 }

/-- An embed as it is read from what is posted of it. The time of the day is written, but not
read again. -/
def Embed.posted (embed : Embed) : Embed :=
  { embed with
    type := ""
    timestamp := embed.timestamp - embed.timestamp % 86400
    footer := embed.footer.map fun footer => { footer with proxyUrl := "" }
    image := embed.image.map EmbedImage.posted
    thumbnail := embed.thumbnail.map EmbedImage.posted
    video := none
    provider := none
    author := embed.author.map fun author => { author with proxyIconUrl := "" } }

variable {P : Platform}

theorem stringNotNull_of_textMember {j : Json} {key s : String}
    (h : j.find? key = textMember s) : stringNotNull j key = s := by
  unfold textMember at h
  unfold stringNotNull
  split at h
  · rw [h]
  · rename_i hs
    rw [h]
    exact (not_not.mp hs).symm

theorem optionalMember_none {β : Type} {j : Json} {key : String}
    {read : Json → Except Exception β} (h : j.find? key = none) :
    optionalMember j key read = .ok none := by
  rw [optionalMember, if_neg (by simp [contains, h])]
  rfl

theorem optionalMember_map {β γ : Type} {j : Json} {key : String}
    {read : Json → Except Exception β} {write : γ → Json} {back : γ → β} {value : Option γ}
    (h : j.find? key = value.map write) (hread : ∀ x, read (write x) = .ok (back x)) :
    optionalMember j key read = .ok (value.map back) := by
  cases value with
  | none => exact optionalMember_none h
  | some x =>
    rw [optionalMember, if_pos (contains_iff.mpr ⟨_, h⟩), subscript_of_find? h]
    simp only [bind, Except.bind, hread]
    rfl

theorem readColor_value {j : Json} {color : Option UInt32}
    (h : j.find? "color" = color.map fun color => .numberUnsigned color.toUInt64) :
    readColor P j = .ok color := by
  cases color with
  | none =>
    rw [readColor, if_neg (by simp [contains, h])]
    rfl
  | some color =>
    have hlt := color.toNat_lt
    rw [Option.map_some] at h
    rw [readColor, if_pos (contains_iff.mpr ⟨_, h⟩), int32NotNull, intNotNull, h]
    simp [Json.isNull, Json.isString, getArithmetic, Except.map, Nat.mod_eq_of_lt hlt]

theorem readImage_value (image : EmbedImage) :
    EmbedImage.ofJson P (.object [("url", .string image.url)]) = .ok image.posted := by
  rfl

theorem readField_value (field : EmbedField) : EmbedField.ofJson field.toJson = .ok field := by
  rfl

theorem readFields_value {j : Json} {fields : List EmbedField}
    (h : j.find? "fields" =
      if fields = [] then none else some (.array (fields.map EmbedField.toJson))) :
    readFields j = .ok fields := by
  split at h
  · rename_i hnil
    rw [readFields, if_neg (by simp [contains, h]), hnil]
    rfl
  · have hitems : ∀ (elements : List Json) (i : Nat),
        (indexed i elements).map Prod.snd = elements := by
      intro elements
      induction elements with
      | nil => exact fun _ => rfl
      | cons v rest ih => exact fun i => by simp [indexed, ih]
    have hread : (fields.map EmbedField.toJson).mapM EmbedField.ofJson = .ok fields := by
      rw [List.mapM_map]
      exact (mapM_ok fun field _ => readField_value field).trans (by rw [List.map_id'])
    rw [readFields, if_pos (contains_iff.mpr ⟨_, h⟩), subscript_of_find? h]
    simp only [bind, Except.bind, items, hitems]
    exact hread

/-- The time of an embed is not set, or can be written. -/
def Embed.Timely (embed : Embed) : Prop :=
  embed.timestamp = 0 ∨ Writable embed.timestamp

theorem tsNotNull_value (times : P.parseTimestamp = parseTimestamp) {j : Json} {ts : Int}
    (timely : ts = 0 ∨ Writable ts)
    (h : j.find? "timestamp" = if ts = 0 then none else some (.string (tsToString ts))) :
    tsNotNull P j "timestamp" = ts - ts % 86400 := by
  unfold tsNotNull
  split at h
  · rename_i hzero
    rw [h, hzero]
    rfl
  · rename_i hzero
    have hwritable := timely.resolve_left hzero
    rw [h, times, tsToString_eq hwritable]
    exact parseTimestamp_written hwritable

/-- **What is read of a posted embed.** -/
theorem Embed.ofJson_value (times : P.parseTimestamp = parseTimestamp) {embed : Embed}
    (timely : embed.Timely) : Embed.ofJson P embed.value = .ok embed.posted := by
  have find : ∀ key, embed.value.find? key = (embed.members.lookup key).join := embed.find?_value
  have hfooter : (optionalMember embed.value "footer" fun fj => (return {
      text := stringNotNull fj "text", iconUrl := stringNotNull fj "icon_url",
      proxyUrl := stringNotNull fj "proxy_url" } : Except Exception EmbedFooter)) =
      .ok embed.posted.footer := optionalMember_map (find "footer") fun _ => rfl
  have himage : optionalMember embed.value "image" (EmbedImage.ofJson P) =
      .ok embed.posted.image := optionalMember_map (find "image") readImage_value
  have hthumbnail : optionalMember embed.value "thumbnail" (EmbedImage.ofJson P) =
      .ok embed.posted.thumbnail := optionalMember_map (find "thumbnail") readImage_value
  have hvideo : optionalMember embed.value "video" (EmbedImage.ofJson P) = .ok none :=
    optionalMember_none (find "video")
  have hprovider : (optionalMember embed.value "provider" fun p => (return {
      name := stringNotNull p "name", url := stringNotNull p "url" } :
        Except Exception EmbedProvider)) = .ok none := optionalMember_none (find "provider")
  have hauthor : (optionalMember embed.value "author" fun a => (return {
      name := stringNotNull a "name", url := stringNotNull a "url",
      iconUrl := stringNotNull a "icon_url",
      proxyIconUrl := stringNotNull a "proxy_icon_url" } : Except Exception EmbedAuthor)) =
      .ok embed.posted.author := optionalMember_map (find "author") fun _ => rfl
  have htype : stringNotNull embed.value "type" = "" := by
    rw [stringNotNull, find "type"]
    rfl
  rw [ofJson_eq, readColor_value (find "color"), hfooter, himage, hthumbnail, hvideo, hprovider,
    hauthor, readFields_value (find "fields"), htype,
    stringNotNull_of_textMember (find "title"), stringNotNull_of_textMember (find "description"),
    stringNotNull_of_textMember (find "url"), tsNotNull_value times timely (find "timestamp")]
  rfl

/-! ### Messages -/

/-- A message as a value. -/
def Message.value (m : Message) : Json :=
  putEach .null (m.members (m.embeds.map Embed.value))

theorem Message.toJson_eq (m : Message) : m.toJson = .ok m.value := by
  have null : Json.null.Mergeable := trivial
  rw [toJson, mapM_ok fun embed _ => embed.toJson_eq]
  exact assignEach_eq null

theorem Message.find?_value (m : Message) (key : String) :
    m.value.find? key = ((m.members (m.embeds.map Embed.value)).lookup key).join := by
  have null : Json.null.Mergeable := trivial
  rw [value, find?_putEach null (by simp [members]), find?_null, Option.or_none]

theorem Message.mergeable_value (m : Message) : m.value.Mergeable := by
  have null : Json.null.Mergeable := trivial
  exact mergeable_putEach null

theorem Message.value_readable (m : Message) : m.value.Ordered ∧ Prints F m.value := by
  have null : Json.null.Mergeable := trivial
  have readable : ∀ {v : Json}, Kept F v → v.Ordered ∧ Prints F v :=
    fun h => ⟨h.ordered, h.prints⟩
  have noElements : Kept F (.array []) := .array fun _ h => by cases h
  have mentions : Kept F (.object [("parse", .array [])]) := by
    refine .object (List.pairwise_singleton _ _) fun _ h => ?_
    rw [List.mem_singleton.mp h]
    exact noElements
  have embeds : Kept F (.array (m.embeds.map Embed.value)) := by
    apply Kept.array
    intro v hv
    obtain ⟨embed, -, rfl⟩ := List.mem_map.mp hv
    exact kept_embed embed
  refine putEach_keeps (Q := fun j => j.Ordered ∧ Prints F j) (fun hm hj hv =>
    ⟨put_ordered hm hj.1 hv.1, (hereditary_prints F).put hj.2 hv.2⟩) ?_ null (readable .null)
  have optional : ∀ {v : Json}, Kept F v → ∀ v',
      (if m.classic = true then some v else none) = some v' → v'.Ordered ∧ Prints F v' := by
    intro v h v' hv'
    split at hv'
    · cases hv'
      exact readable h
    · cases hv'
  have always : ∀ {v : Json}, v.Ordered ∧ Prints F v → ∀ v', some v = some v' →
      v'.Ordered ∧ Prints F v' := by
    rintro v h v' ⟨⟩
    exact h
  simp only [members, List.forall_mem_cons]
  exact ⟨always (readable (.string _)), always (readable (.boolean _)),
    always (readable (.string _)), always (readable (.numberUnsigned _)),
    always ⟨trivial, trivial⟩, optional (.string _), always (readable mentions),
    optional noElements, always (readable noElements), optional embeds, by simp⟩

/-- **What is posted of a message is read as its content and its embeds, as far as these are
posted.** -/
theorem Message.embeds_delivered (library : P.UsesLibrary F)
    (times : P.parseTimestamp = parseTimestamp) {m : Message} (classic : m.classic = true)
    (timely : ∀ embed ∈ m.embeds, embed.Timely) :
    ∃ j body values, m.toJson = .ok j ∧ P.parse (P.dump j) = .ok body ∧
      body.find? "channel_id" = some (.string (toString m.channelId)) ∧
      body.find? "content" = some (.string m.content) ∧
      body.find? "embeds" = some (.array values) ∧
      values.mapM (Embed.ofJson P) = .ok (m.embeds.map Embed.posted) := by
  obtain ⟨ordered, prints⟩ := m.value_readable (F := F)
  have find : ∀ key, m.value.reread.find? key =
      (((m.members (m.embeds.map Embed.value)).lookup key).join).map reread := by
    intro key
    rw [find?_reread m.mergeable_value, m.find?_value]
  have hembeds : (Json.array (m.embeds.map Embed.value)).reread =
      .array (m.embeds.map Embed.value) := by
    refine Kept.reread (F := F) (.array fun v hv => ?_)
    obtain ⟨embed, -, rfl⟩ := List.mem_map.mp hv
    exact kept_embed embed
  refine ⟨m.value, m.value.reread, m.embeds.map Embed.value, m.toJson_eq,
    library.reparsed ordered prints, find "channel_id", ?_, ?_, ?_⟩
  · rw [find "content", members, classic]
    rfl
  · have hfind := find "embeds"
    simp only [members, classic, if_true] at hfind
    exact hfind.trans (congrArg some hembeds)
  · rw [List.mapM_map]
    exact mapM_ok fun embed hmem => Embed.ofJson_value times (timely embed hmem)

/-- A platform with the library and the model's timestamps. -/
def timedLibrary (F : FloatText) : Platform :=
  { Platform.ofLibrary F with parseTimestamp := parseTimestamp }

theorem usesLibrary_timedLibrary (F : FloatText) : (timedLibrary F).UsesLibrary F :=
  ⟨(Platform.usesLibrary_ofLibrary F).parse_ok, fun _ => rfl⟩

/-- An embed of which something is lost. -/
def sampleEmbed : Embed where
  title := "Appeal"
  timestamp := 1709212455
  color := some 255
  provider := some { name := "Cordactyl", url := "" }
  fields := [{ name := "Guild", value := "1", isInline := true }]

theorem Message.embeds_delivered_sampleEmbed :
    ∃ j body values, ({ channelId := 7, embeds := [sampleEmbed] } : Message).toJson = .ok j ∧
      (timedLibrary oneHalf).parse ((timedLibrary oneHalf).dump j) = .ok body ∧
      body.find? "embeds" = some (.array values) ∧
      values.mapM (Embed.ofJson (timedLibrary oneHalf)) =
        .ok [{ sampleEmbed with timestamp := 1709164800, provider := none }] := by
  obtain ⟨j, body, values, hjson, hbody, -, -, hembeds, hread⟩ :=
    embeds_delivered (usesLibrary_timedLibrary oneHalf) rfl
      (m := { channelId := 7, embeds := [sampleEmbed] }) (by decide) (by
        intro embed hembed
        rw [List.mem_singleton.mp hembed]
        exact .inr ⟨by decide +kernel, by decide +kernel⟩)
  exact ⟨j, body, values, hjson, hbody, hembeds, hread⟩

end Dpp
