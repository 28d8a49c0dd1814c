import CordactylBot.Dpp.Embed

/-!
Which values the D++ readers take.

A numeric reader throws on a container, the boolean reader on everything but a boolean
and null. `embedReadable` puts together what this means for a whole embed, member by
member, and `ofJson_succeeds_iff` says that the constructor throws for no other reason.
-/

/-- The computation returns a value. -/
def Succeeds {β : Type} (x : Except Exception β) : Prop :=
  ∃ a, x = .ok a

namespace Succeeds

variable {β γ : Type}

@[simp] theorem ok (a : β) : Succeeds (.ok a) := ⟨a, rfl⟩

@[simp] theorem not_error (e : Exception) : ¬ Succeeds (.error e : Except Exception β) := by
  rintro ⟨a, h⟩
  cases h

theorem map_iff (f : β → γ) (x : Except Exception β) : Succeeds (x.map f) ↔ Succeeds x := by
  cases x with
  | ok a => simp [Except.map]
  | error e => simp [Except.map]

/-- A sequence succeeds when both parts do, if the second does so whatever it is given. -/
theorem bind_iff {x : Except Exception β} {f : β → Except Exception γ} {q : Prop}
    (h : ∀ a, Succeeds (f a) ↔ q) : Succeeds (x >>= f) ↔ Succeeds x ∧ q := by
  cases x with
  | ok a => simpa [bind, Except.bind] using h a
  | error e => simp [bind, Except.bind]

theorem pure_bind_iff {x : Except Exception β} {f : β → γ} :
    Succeeds (x >>= fun a => pure (f a)) ↔ Succeeds x :=
  (bind_iff fun _ => iff_true_intro (ok _)).trans (iff_of_eq (and_true _))

theorem mapM_iff (f : β → Except Exception γ) (xs : List β) :
    Succeeds (xs.mapM f) ↔ ∀ x ∈ xs, Succeeds (f x) := by
  induction xs with
  | nil => simp [pure, Except.pure]
  | cons x xs ih =>
    rw [List.mapM_cons, bind_iff (q := ∀ x ∈ xs, Succeeds (f x)), List.forall_mem_cons]
    intro a
    rw [bind_iff (q := True), ih, and_true]
    exact fun _ => iff_true_intro (ok _)

end Succeeds

namespace Dpp

variable (P : Platform)

/-! ### Members -/

/-- A member a numeric reader takes. -/
def numeric : Option Json → Bool
  | some (.object _) | some (.array _) => false
  | _ => true

/-- A member the boolean reader takes. -/
def flag : Option Json → Bool
  | none | some .null | some (.boolean _) => true
  | _ => false

theorem intNotNull_succeeds_iff (bits : Nat) (j : Json) (key : String) :
    Succeeds (intNotNull P bits j key) ↔ numeric (j.find? key) = true := by
  unfold intNotNull
  cases j.find? key with
  | none => simp [numeric]
  | some k => cases k <;> simp [numeric, Json.isNull, Json.isString, Json.getArithmetic]

theorem int32NotNull_succeeds_iff (j : Json) (key : String) :
    Succeeds (int32NotNull P j key) ↔ numeric (j.find? key) = true := by
  rw [int32NotNull, Succeeds.map_iff, intNotNull_succeeds_iff]

theorem int8NotNull_succeeds_iff (j : Json) (key : String) :
    Succeeds (int8NotNull P j key) ↔ numeric (j.find? key) = true := by
  rw [int8NotNull, Succeeds.map_iff, intNotNull_succeeds_iff]

theorem boolNotNull_succeeds_iff (j : Json) (key : String) :
    Succeeds (boolNotNull j key) ↔ flag (j.find? key) = true := by
  unfold boolNotNull
  cases j.find? key with
  | none => simp [flag]
  | some k => cases k <;> simp [flag, Json.isNull, Json.getBool]

/-! ### Embeds -/

/-- The numeric members of an embed's image. -/
def imageNumbers : List String :=
  ["height", "width", "loading_state", "placeholder_version", "flags"]

/-- An image the constructor can read. -/
def imageReadable (fi : Json) : Bool :=
  imageNumbers.all fun key => numeric (fi.find? key)

/-- What the elements of `fields` have to pass. -/
def fieldsReadable (fl : Json) : Bool :=
  fl.items.all fun field => flag (field.2.find? "inline")

/-- A member that is absent or passes the test. -/
def absentOr (test : Json → Bool) (j : Json) (key : String) : Bool :=
  match j.find? key with
  | none => true
  | some value => test value

/-- An embed the constructor can read. -/
def embedReadable (j : Json) : Bool :=
  numeric (j.find? "color") &&
    (absentOr imageReadable j "image" && absentOr imageReadable j "video" &&
      absentOr imageReadable j "thumbnail") &&
    absentOr fieldsReadable j "fields"

theorem image_succeeds_iff (fi : Json) :
    Succeeds (EmbedImage.ofJson P fi) ↔ imageReadable fi = true := by
  unfold EmbedImage.ofJson
  refine (Succeeds.bind_iff fun _ => Succeeds.bind_iff fun _ => Succeeds.bind_iff fun _ =>
    Succeeds.bind_iff fun _ => Succeeds.bind_iff fun _ => iff_true_intro (Succeeds.ok _)).trans ?_
  simp [int32NotNull_succeeds_iff, int8NotNull_succeeds_iff, imageReadable, imageNumbers]

theorem field_succeeds_iff (field : Json) :
    Succeeds (EmbedField.ofJson field) ↔ flag (field.find? "inline") = true := by
  unfold EmbedField.ofJson
  rw [Succeeds.pure_bind_iff, boolNotNull_succeeds_iff]

/-- Reading an optional member throws only in the reading. -/
theorem optionalMember_succeeds_iff {β : Type} {j : Json} {key : String}
    {read : Json → Except Exception β} {test : Json → Bool}
    (h : ∀ m, Succeeds (read m) ↔ test m = true) :
    Succeeds (optionalMember j key read) ↔ absentOr test j key = true := by
  unfold optionalMember absentOr
  cases hfind : j.find? key with
  | none =>
    rw [if_neg (by simp [Json.contains, hfind])]
    simp [pure, Except.pure]
  | some m =>
    rw [if_pos (Json.contains_iff.mpr ⟨m, hfind⟩), Json.subscript_of_find? hfind]
    exact Succeeds.pure_bind_iff.trans (h m)

/-- A member that is read without numbers. -/
theorem optionalMember_text_succeeds {β : Type} (j : Json) (key : String) (read : Json → β) :
    Succeeds (optionalMember j key fun m => return read m) := by
  unfold optionalMember
  split
  · rename_i hcontains
    obtain ⟨m, hfind⟩ := Json.contains_iff.mp hcontains
    rw [Json.subscript_of_find? hfind]
    exact Succeeds.ok _
  · exact Succeeds.ok _

theorem fields_succeeds_iff (fl : Json) :
    Succeeds ((fl.items.map Prod.snd).mapM EmbedField.ofJson) ↔ fieldsReadable fl = true := by
  rw [Succeeds.mapM_iff, List.forall_mem_map, fieldsReadable, List.all_eq_true]
  exact forall₂_congr fun field _ => field_succeeds_iff field.2

/-- The colour of an embed. -/
def readColor (j : Json) : Except Exception (Option UInt32) :=
  if j.contains "color" then (int32NotNull P j "color").map some else pure none

/-- The fields of an embed. -/
def readFields (j : Json) : Except Exception (List EmbedField) :=
  if j.contains "fields" then do
    let fl ← j.subscript "fields"
    (fl.items.map Prod.snd).mapM EmbedField.ofJson
  else pure []

theorem readColor_succeeds_iff (j : Json) :
    Succeeds (readColor P j) ↔ numeric (j.find? "color") = true := by
  unfold readColor
  split
  · rw [Succeeds.map_iff, int32NotNull_succeeds_iff]
  · rename_i hcontains
    rw [Json.find?_of_not_contains hcontains]
    exact iff_of_true (Succeeds.ok _) rfl

theorem readFields_succeeds_iff (j : Json) :
    Succeeds (readFields j) ↔ absentOr fieldsReadable j "fields" = true := by
  unfold readFields absentOr
  split
  · rename_i hcontains
    obtain ⟨fl, hfind⟩ := Json.contains_iff.mp hcontains
    rw [Json.subscript_of_find? hfind, hfind]
    exact fields_succeeds_iff fl
  · rename_i hcontains
    rw [Json.find?_of_not_contains hcontains]
    exact iff_of_true (Succeeds.ok _) rfl

/-- The constructor, its conditional parts put together. -/
theorem ofJson_eq (j : Json) :
    Embed.ofJson P j = do
      let color ← readColor P j
      let footer ← optionalMember j "footer" fun fj =>
        return { text := stringNotNull fj "text", iconUrl := stringNotNull fj "icon_url",
                 proxyUrl := stringNotNull fj "proxy_url" }
      let image ← optionalMember j "image" (EmbedImage.ofJson P)
      let video ← optionalMember j "video" (EmbedImage.ofJson P)
      let thumbnail ← optionalMember j "thumbnail" (EmbedImage.ofJson P)
      let provider ← optionalMember j "provider" fun p =>
        return { name := stringNotNull p "name", url := stringNotNull p "url" }
      let author ← optionalMember j "author" fun a =>
        return { name := stringNotNull a "name", url := stringNotNull a "url",
                 iconUrl := stringNotNull a "icon_url",
                 proxyIconUrl := stringNotNull a "proxy_icon_url" }
      let fields ← readFields j
      return { title := stringNotNull j "title", type := stringNotNull j "type",
               description := stringNotNull j "description", url := stringNotNull j "url",
               timestamp := tsNotNull P j "timestamp",
               color, footer, image, thumbnail, video, provider, author, fields } := by
  unfold Embed.ofJson readColor readFields
  cases j.contains "color" <;> cases j.contains "fields" <;> simp

/-- **The embed constructor throws exactly on the values that are not readable.** -/
theorem ofJson_succeeds_iff (j : Json) : Succeeds (Embed.ofJson P j) ↔ embedReadable j = true := by
  rw [ofJson_eq]
  refine (Succeeds.bind_iff fun _ => Succeeds.bind_iff fun _ => Succeeds.bind_iff fun _ =>
    Succeeds.bind_iff fun _ => Succeeds.bind_iff fun _ => Succeeds.bind_iff fun _ =>
    Succeeds.bind_iff fun _ => Succeeds.pure_bind_iff).trans ?_
  rw [readColor_succeeds_iff, optionalMember_succeeds_iff (image_succeeds_iff P),
    optionalMember_succeeds_iff (image_succeeds_iff P),
    optionalMember_succeeds_iff (image_succeeds_iff P), readFields_succeeds_iff]
  simp only [optionalMember_text_succeeds, embedReadable, true_and, Bool.and_eq_true, and_assoc]

end Dpp
