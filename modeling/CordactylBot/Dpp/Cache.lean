import Std.Data.ExtTreeMap
import Mathlib.Data.List.Nodup

/-!
The cached objects of D++ and the interaction a command arrives with.

The guild cache and the members of a guild are unordered maps. A list of entries stands
for such a map together with the order an iteration goes through it, so what holds of
every list holds of every order. The invariants D++ keeps are part of the types: keys
are distinct, no guild has the id 0, and an entry carries its key.
-/

/-- `dpp::guild_member`, the fields the bot reads. `avatar` is the printed hash. -/
structure GuildMember where
  nickname : String := ""
  avatar : String := ""
  roles : List UInt64 := []
  userId : UInt64 := 0
deriving DecidableEq, Repr

/-- `dpp::user`, the fields the bot reads of a command's issuer. -/
structure User where
  id : UInt64
  username : String
  globalName : String := ""
  avatar : String := ""
  discriminator : UInt16 := 0
deriving DecidableEq, Repr

/-- The members of a `dpp::guild`. -/
structure Guild where
  members : List (UInt64 × GuildMember)
  nodup : (members.map Prod.fst).Nodup
  keyed : ∀ entry ∈ members, entry.2.userId = entry.1

/-- `get_guild_cache()`. -/
structure GuildCache where
  guilds : List (UInt64 × Guild)
  nodup : (guilds.map Prod.fst).Nodup
  nonzero : ∀ entry ∈ guilds, entry.1 ≠ 0

/-- `dpp::role`, the fields the bot reads. -/
structure Role where
  id : UInt64
  name : String
  colour : UInt32
deriving DecidableEq, Repr

/-- `get_role_cache()`. -/
structure RoleCache where
  roles : Std.ExtTreeMap UInt64 Role compare
  keyed : ∀ (id : UInt64) role, roles[id]? = some role → role.id = id

/-- `find_role`. -/
def RoleCache.findRole (cache : RoleCache) (id : UInt64) : Option Role :=
  cache.roles[id]?

/-- `interaction_context_type`. -/
inductive InteractionContext where
  | guild
  | botDm
  | privateChannel
deriving DecidableEq, Repr

/-- `dpp::interaction`, the fields the bot reads. -/
structure Interaction where
  context : Option InteractionContext
  guildId : UInt64
  issuingUser : User
  member : GuildMember
  locale : String
deriving DecidableEq, Repr

/-- The user is a member of the guild with this id, as `member`. -/
def GuildCache.Mutual (cache : GuildCache) (user id : UInt64) (member : GuildMember) : Prop :=
  ∃ guild, (id, guild) ∈ cache.guilds ∧ (user, member) ∈ guild.members

theorem GuildCache.Mutual.userId {cache : GuildCache} {user id : UInt64} {member : GuildMember}
    (h : cache.Mutual user id member) : member.userId = user := by
  obtain ⟨guild, -, hmember⟩ := h
  exact guild.keyed _ hmember

theorem GuildCache.Mutual.ne_zero {cache : GuildCache} {user id : UInt64} {member : GuildMember}
    (h : cache.Mutual user id member) : id ≠ 0 := by
  obtain ⟨guild, hguild, -⟩ := h
  exact cache.nonzero _ hguild

/-- A user has one entry in a guild. -/
theorem GuildCache.Mutual.unique {cache : GuildCache} {user id : UInt64} {m m' : GuildMember}
    (h : cache.Mutual user id m) (h' : cache.Mutual user id m') : m = m' := by
  obtain ⟨guild, hguild, hmember⟩ := h
  obtain ⟨guild', hguild', hmember'⟩ := h'
  have same : guild = guild' := by
    have := List.inj_on_of_nodup_map cache.nodup hguild hguild' rfl
    exact (Prod.mk.inj this).2
  subst same
  have := List.inj_on_of_nodup_map guild.nodup hmember hmember' rfl
  exact (Prod.mk.inj this).2
