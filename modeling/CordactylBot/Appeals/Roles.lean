import CordactylBot.Appeals.Guild
import CordactylBot.Library.Numeral

/-!
The roles in an appeal.

The request lists the roles of the member that are in the role cache, each with its
colour as six hexadecimal digits. `decodeRole` is what the receiver can do with an
element.

* `describes_roleValue` — decoding an element gives the role back.
* `appeal_roles` — what the array in a posted request contains.
-/

namespace Appeals

open AcknowledgePayload (snowflakeJson)

/-! ### Reading an element -/

/-- A snowflake, from its decimal digits. -/
def decodeSnowflake : Json → Option UInt64
  | .string text => (Numeral.value? 10 text.toList).map UInt64.ofNat
  | _ => none

def decodeText : Json → Option String
  | .string text => some text
  | _ => none

/-- A colour: 0 if there is none, else the six digits after the `#`. -/
def decodeColour : Option Json → Option UInt32
  | none => some 0
  | some (.string text) =>
      match text.toList with
      | '#' :: digits =>
          if digits.length = 6 then (Numeral.value? 16 digits).map UInt32.ofNat else none
      | _ => none
  | some _ => none

/-- The role an element describes. -/
def decodeRole (j : Json) : Option Role := do
  let id ← decodeSnowflake (← j.find? "id")
  let name ← decodeText (← j.find? "name")
  let colour ← decodeColour (j.find? "color")
  return { id, name, colour }

/-- The lowercase hexadecimal digits. -/
def hexDigits : List Char :=
  ['0', '1', '2', '3', '4', '5', '6', '7', '8', '9', 'a', 'b', 'c', 'd', 'e', 'f']

/-- A colour the panel can show. -/
def InRange (role : Role) : Prop :=
  role.colour.toNat < 2 ^ 24

/-! ### Colours -/

theorem hexColor_eq (colour : UInt32) :
    hexColor colour = String.ofList (Numeral.padded 16 6 colour.toNat) := by
  unfold hexColor Numeral.padded List.leftpad
  dsimp only
  split
  · rfl
  · rename_i hlength
    rw [Nat.sub_eq_zero_of_le (Nat.not_lt.mp hlength)]
    rfl

theorem mem_hexDigits {c : Char} {width n : Nat} (h : c ∈ Numeral.padded 16 width n) :
    c ∈ hexDigits := by
  obtain ⟨d, hd, rfl⟩ := Numeral.mem_padded (by decide) h
  have all : ∀ d < 16, d.digitChar ∈ hexDigits := by decide
  exact all d hd

theorem length_hexColor {colour : UInt32} (h : colour.toNat < 2 ^ 24) :
    (Numeral.padded 16 6 colour.toNat).length = 6 :=
  Numeral.length_padded (by decide) (by decide) (by rwa [show 16 ^ 6 = 2 ^ 24 by decide])

theorem decodeColour_hexColor {colour : UInt32} (h : colour.toNat < 2 ^ 24) :
    decodeColour (some (.string ("#" ++ hexColor colour))) = some colour := by
  have htext : ("#" ++ hexColor colour).toList = '#' :: Numeral.padded 16 6 colour.toNat := by
    simp [hexColor_eq]
  rw [decodeColour, htext]
  refine (if_pos (length_hexColor h)).trans ?_
  rw [Numeral.value?_padded (by decide) (by decide)]
  simp

theorem decodeSnowflake_snowflakeJson (id : UInt64) :
    decodeSnowflake (snowflakeJson id) = some id := by
  have htext : (toString id).toList = Nat.toDigits 10 id.toNat := Nat.toList_repr
  rw [snowflakeJson, decodeSnowflake, htext, Numeral.value?]
  rw [Numeral.valueFrom?_toDigits (by decide) (by decide)]
  simp
/-! ### Elements -/

/-- The element `j` describes the role, and the role can be read off it. -/
structure Describes (role : Role) (j : Json) : Prop where
  id : j.find? "id" = some (snowflakeJson role.id)
  name : j.find? "name" = some (.string role.name)
  uncoloured : j.find? "color" = none ↔ role.colour = 0
  coloured : role.colour ≠ 0 → InRange role → ∃ digits,
    j.find? "color" = some (.string ("#" ++ String.ofList digits)) ∧ digits.length = 6 ∧
    (∀ c ∈ digits, c ∈ hexDigits) ∧ Numeral.value? 16 digits = some role.colour.toNat
  decoded : InRange role → decodeRole j = some role

theorem find?_roleValue_color (roleId : UInt64) (role : Role) :
    (roleValue roleId role).find? "color" =
      if role.colour = 0 then none else some (.string ("#" ++ hexColor role.colour)) := by
  unfold roleValue
  by_cases h : role.colour = 0
  · rw [if_pos h, if_neg (not_not.mpr h)]
    rfl
  · rw [if_neg h, if_pos h]
    rfl

theorem find?_roleValue_id (roleId : UInt64) (role : Role) :
    (roleValue roleId role).find? "id" = some (snowflakeJson roleId) := by
  unfold roleValue
  split <;> rfl

theorem find?_roleValue_name (roleId : UInt64) (role : Role) :
    (roleValue roleId role).find? "name" = some (.string role.name) := by
  unfold roleValue
  split <;> rfl

theorem describes_roleValue (role : Role) : Describes role (roleValue role.id role) := by
  constructor
  · exact find?_roleValue_id role.id role
  · exact find?_roleValue_name role.id role
  · rw [find?_roleValue_color]
    split
    · rename_i h
      exact iff_of_true rfl h
    · rename_i h
      exact iff_of_false (by simp) h
  · intro h hrange
    refine ⟨Numeral.padded 16 6 role.colour.toNat, ?_, ?_, fun c => mem_hexDigits, ?_⟩
    · rw [find?_roleValue_color, if_neg h, hexColor_eq]
    · exact length_hexColor hrange
    · exact Numeral.value?_padded (by decide) (by decide) 6 _
  · intro hrange
    have colour : decodeColour ((roleValue role.id role).find? "color") = some role.colour := by
      rw [find?_roleValue_color]
      split
      · rename_i h
        rw [h]
        rfl
      · exact decodeColour_hexColor hrange
    rw [decodeRole, find?_roleValue_id, find?_roleValue_name, colour]
    simp [decodeSnowflake_snowflakeJson, decodeText]

/-- Different colours are shown differently. -/
theorem Describes.color_injective {role role' : Role} {j j' : Json} (h : Describes role j)
    (h' : Describes role' j') (hrange : InRange role) (hrange' : InRange role')
    (same : j.find? "color" = j'.find? "color") : role.colour = role'.colour := by
  by_cases hzero : role.colour = 0
  · rw [hzero, h'.uncoloured.mp (same ▸ h.uncoloured.mpr hzero)]
  · have hzero' : role'.colour ≠ 0 := fun h0 =>
      hzero (h.uncoloured.mp (same ▸ h'.uncoloured.mpr h0))
    obtain ⟨digits, hcolor, -, -, hvalue⟩ := h.coloured hzero hrange
    obtain ⟨digits', hcolor', -, -, hvalue'⟩ := h'.coloured hzero' hrange'
    rw [hcolor, hcolor', Option.some.injEq, Json.string.injEq] at same
    have hdigits : digits = digits' := String.ofList_injective (by simpa using same)
    rw [hdigits, hvalue', Option.some.injEq] at hvalue
    exact (UInt32.toNat_inj.mp hvalue).symm

/-- The roles of the member that are in the cache, in list order. -/
def cachedRoles (cache : RoleCache) (member : GuildMember) : List Role :=
  member.roles.filterMap cache.findRole

/-- The array `user.roles` of a request. -/
def postedRoles (body : Json) : Option Json :=
  (body.find? "user").bind fun user => user.find? "roles"

theorem find?_userValue_roles (cache : RoleCache) (user : User) (member : GuildMember) :
    (userValue cache user member).find? "roles" = some (.array (member.roles.filterMap fun roleId =>
      (cache.findRole roleId).map (roleValue roleId))) := by
  unfold userValue
  split <;> rfl

theorem roles_described (cache : RoleCache) (roleIds : List UInt64) :
    List.Forall₂ Describes (roleIds.filterMap cache.findRole)
      (roleIds.filterMap fun roleId => (cache.findRole roleId).map (roleValue roleId)) := by
  induction roleIds with
  | nil => exact .nil
  | cons roleId roleIds ih =>
    cases hrole : cache.findRole roleId with
    | none =>
      rw [List.filterMap_cons_none hrole, List.filterMap_cons_none (by rw [hrole]; rfl)]
      exact ih
    | some role =>
      rw [List.filterMap_cons_some hrole, List.filterMap_cons_some (by rw [hrole]; rfl)]
      have hid : role.id = roleId := cache.keyed roleId role hrole
      exact .cons (hid ▸ describes_roleValue role) ih

/-- **The roles of an appeal.** The array lists the cached roles of the member in order,
each can be read off its element, and different colours are told apart. -/
theorem appeal_roles (P : Platform) (translations : Translations) (guilds : GuildCache)
    (roles : RoleCache) (event : Interaction) (probe : Probe)
    (response answer : HttpRequestCompletion) (body : Json)
    (hposted : .posted body ∈
      (handleAppeal P translations guilds roles event probe response answer).events) :
    (∃ found elements, selectGuild guilds event = some found ∧
      postedRoles body = some (.array elements) ∧
      List.Forall₂ Describes (cachedRoles roles found.member) elements) ∧
    ∀ role role' j j', Describes role j → Describes role' j' → InRange role → InRange role' →
      role.colour ≠ role'.colour → j.find? "color" ≠ j'.find? "color" := by
  constructor
  · obtain ⟨found, hselect, -, hbody⟩ := posted_iff.mp hposted
    rw [requestBody_eq, Except.ok.injEq] at hbody
    refine ⟨found, _, hselect, ?_, roles_described roles found.member.roles⟩
    rw [← hbody, postedRoles, Json.find?]
    exact find?_userValue_roles roles event.issuingUser found.member
  · exact fun role role' j j' h h' hrange hrange' hne same =>
      hne (h.color_injective h' hrange hrange' same)

/-- A role with a colour of two digits, and one without a colour. -/
def twoRoles : RoleCache where
  roles := (∅ : Std.ExtTreeMap UInt64 Role compare).insert 1 { id := 1, name := "a", colour := 171 }
    |>.insert 2 { id := 2, name := "b", colour := 0 }
  keyed := by
    intro id role h
    simp only [Std.ExtTreeMap.getElem?_insert, Std.LawfulEqCmp.compare_eq_iff_eq] at h
    split at h
    · rename_i hid
      rw [← hid, ← Option.some.inj h]
    · split at h
      · rename_i hid
        rw [← hid, ← Option.some.inj h]
      · simp at h

def inGuildBody : Json :=
  .object
    [("guild_id", .string "5"), ("user", userValue twoRoles inGuild.issuingUser inGuild.member)]

example : postedRoles inGuildBody = some (.array
    [.object [("id", .string "2"), ("name", .string "b")],
     .object [("color", .string "#0000ab"), ("id", .string "1"), ("name", .string "a")]]) := by
  decide +kernel

theorem appeal_roles_inGuild :
    (∃ found elements, selectGuild noGuilds inGuild = some found ∧
      postedRoles inGuildBody = some (.array elements) ∧
      List.Forall₂ Describes (cachedRoles twoRoles found.member) elements) ∧
    ∀ role role' j j', Describes role j → Describes role' j' → InRange role → InRange role' →
      role.colour ≠ role'.colour → j.find? "color" ≠ j'.find? "color" :=
  appeal_roles (.ofTable [] []) ∅ noGuilds twoRoles inGuild { status := 400 } {} {} inGuildBody
    (posted_iff.mpr ⟨_, rfl, by decide, requestBody_eq twoRoles _ _⟩)

end Appeals
