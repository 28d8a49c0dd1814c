import CordactylBot.Dpp.Shape
import CordactylBot.Dpp.Strings

/-!
The objects an answer is read into (`guild.cpp`, `channel.cpp`).

A REST call of the cluster fills an object from the body of its answer and then hands the
confirmation to its callback, whatever the status. When the body cannot be read the exception
is caught around the callback (`queues.cpp`), and the callback never runs.

* `guildMemberReadable` — which bodies a member is read from.
* `Channel.ofJson` — the channel a body is read as.
-/

namespace Dpp

/-! ### Channels -/

/-- `dpp::channel`, the members the cluster reads. -/
structure Channel where
  id : UInt64 := 0
  recipients : List UInt64 := []
deriving DecidableEq, Repr

/-- `snowflake_not_null`; `strtoull` reads what a stream reads. -/
def snowflakeNotNull (j : Json) (key : String) : UInt64 :=
  match j.find? key with
  | some (.string s) => fromString s.toList
  | _ => 0

/-- The numeric members `channel::fill_from_json` reads. -/
def Channel.numbers : List String :=
  ["position", "user_limit", "rate_limit_per_user", "default_thread_rate_limit_per_user",
   "bitrate", "default_auto_archive_duration", "default_sort_order", "type",
   "default_forum_layout", "flags", "video_quality_mode"]

/-- `for_each_json` passes over null. -/
def nullOr (test : Json → Bool) (j : Json) (key : String) : Bool :=
  match j.find? key with
  | none | some .null => true
  | some value => test value

/-- What `iconhash::set` takes. -/
def iconhashReadable (hash : String) : Bool :=
  hash.utf8ByteSize = 0 || hash.utf8ByteSize = 32 ||
    (hash.utf8ByteSize = 34 && hash.toList.take 2 = ['a', '_'])

/-- The members but the recipients can be read without an exception. -/
def Channel.readable (j : Json) : Bool :=
  Channel.numbers.all (fun key => numeric (j.find? key)) &&
    flag (j.find? "nsfw") &&
    nullOr (fun tags => tags.items.all fun tag => flag (tag.2.find? "moderated")) j
      "available_tags" &&
    absentOr (fun overwrites => overwrites.items.all fun o => numeric (o.2.find? "type")) j
      "permission_overwrites" &&
    iconhashReadable (stringNotNull j "icon")

/-- The recipients, when none of them throws. -/
def Channel.readRecipients (value : Json) : Option (List UInt64) :=
  (value.items.map Prod.snd).mapM fun r => do
    let id ← (r.subscript "id").toOption
    let s ← id.getString.toOption
    return fromString s.toList

/-- `channel::fill_from_json` over the recipients known so far; nothing when it throws. -/
def Channel.fillFromJson (known : List UInt64) (j : Json) : Option Channel :=
  if Channel.readable j then
    match j.find? "recipients" with
    | none => some { id := snowflakeNotNull j "id", recipients := known }
    | some value =>
        (Channel.readRecipients value).map fun recipients =>
          { id := snowflakeNotNull j "id", recipients }
  else none

def Channel.ofJson (j : Json) : Option Channel :=
  Channel.fillFromJson [] j

/-- `list[id] = channel`. -/
def Channel.store (channel : Channel) (list : List Channel) : List Channel :=
  list.filter (·.id ≠ channel.id) ++ [channel]

/-- `rest_request_list`: the channels of a list, of those with one id the last. -/
def Channel.listOfJson (j : Json) : Option (List Channel) := do
  let channels ← (j.items.map Prod.snd).mapM Channel.ofJson
  return channels.foldl (fun list channel => channel.store list) []

/-! ### Members of guilds -/

/-- `guild_member::fill_from_json` reads the members without an exception. -/
def guildMemberReadable (j : Json) : Bool :=
  numeric (j.find? "flags") &&
    nullOr (fun roles => roles.items.all fun role => role.2.isString) j "roles" &&
    nullOr (fun _ => iconhashReadable (stringNotNull j "avatar")) j "avatar" &&
    ["deaf", "mute", "pending"].all fun key => flag (j.find? key)

example : guildMemberReadable .null = true := rfl

example : guildMemberReadable (.object [("roles", .array [.numberUnsigned 1])]) = false := by
  decide

end Dpp
