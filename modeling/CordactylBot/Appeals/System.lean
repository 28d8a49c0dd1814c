import CordactylBot.AcknowledgePayload.System
import CordactylBot.Dpp.Cache
import CordactylBot.Dpp.Embed
import CordactylBot.Dpp.Fill
import CordactylBot.Translations

/-!
The appeal command (`appeals.cpp`).

`handle_appeal` picks the guild an appeal is for, probes whether the issuer can be sent
a direct message, posts the appeal and shows the answer. Between its three `co_await`s it
keeps nothing but its own variables, so a run is a function of the interaction, the
caches and the three completions. A `Run` lists what it did, in order, and the exception
that left it, if any. A probe whose answer cannot be read is never handed on, and the run
stays where it is.
-/

namespace Appeals

open Dpp
open AcknowledgePayload (snowflakeJson assignIf)

/-! ### Texts -/

def mustBeInGuild : String := "You must be in a guild to use this command."

def cannotMessage : String :=
  "It seems like i can't send you a DM. Please send me a DM so that I can keep you informed " ++
    "about your appeal."

def noResponse : String := "Error. Couldn't generate a response. Please try again later."

def maintenance : String :=
  "The server is currently undergoing maintenance. Please try again later."

def apiError : String := "Cordactyl API error. Please try again later."

/-! ### Runs -/

/-- What a run did. Every reply is ephemeral. -/
inductive Event where
  /-- `event.reply` with a message, translated to `text` -/
  | replied (message text : String)
  /-- `event.co_reply` with the embed of the answer -/
  | repliedEmbed (embed : Embed)
  /-- an empty direct message was sent to the user -/
  | probed (user : UInt64)
  /-- `/appeal-invitations/create` was requested -/
  | posted (body : Json)
  /-- `bot.log` at level error -/
  | logged (text : String)
deriving DecidableEq

structure Run where
  events : List Event
  escaped : Option Exception := none
deriving DecidableEq

/-- The run goes on with `r` after it did `e`. -/
def Run.after (e : Event) (r : Run) : Run :=
  { r with events := e :: r.events }

/-! ### The guild -/

/-- `guild_id` and `member`, as the search leaves them. -/
structure Found where
  guildId : UInt64 := 0
  member : GuildMember := {}
deriving DecidableEq

/-- The inner loop. `none` is the early return at a second mutual guild. -/
def searchMembers (user id : UInt64) : List (UInt64 × GuildMember) → Found → Option Found
  | [], found => some found
  | (key, member) :: rest, found =>
      if key = user then
        if found.guildId ≠ 0 then none
        else searchMembers user id rest { guildId := id, member }
      else searchMembers user id rest found

/-- The outer loop. -/
def searchGuilds (user : UInt64) : List (UInt64 × Guild) → Found → Option Found
  | [], found => some found
  | (id, guild) :: rest, found =>
      (searchMembers user id guild.members found).bind (searchGuilds user rest)

/-- The condition under which the guild cache is searched. -/
def outsideGuild (event : Interaction) : Bool :=
  (event.context.isSome && event.context ≠ some .guild) || event.guildId = 0

/-- `guild_id` and `member` after the search and the two defaults. -/
def selectGuild (guilds : GuildCache) (event : Interaction) : Option Found := do
  let found ←
    if outsideGuild event then searchGuilds event.issuingUser.id guilds.guilds {} else some {}
  return { guildId := if found.guildId = 0 then event.guildId else found.guildId
           member := if found.member.userId = 0 then event.member else found.member }

/-! ### The request body -/

def displayName (user : User) (member : GuildMember) : String :=
  if member.nickname ≠ "" then member.nickname
  else if user.globalName ≠ "" then user.globalName
  else user.username

def avatarOf (user : User) (member : GuildMember) : String :=
  if member.avatar ≠ "" then member.avatar else user.avatar

def defaultAvatarIndex (user : User) : UInt32 :=
  if user.discriminator ≠ 0 then (user.discriminator % 5).toUInt32
  else ((user.id >>> 22) % 6).toUInt32

/-- `stream << std::hex << role->colour`, filled up to six digits. -/
def hexColor (colour : UInt32) : String :=
  let digits := Nat.toDigits 16 colour.toNat
  String.ofList <|
    if digits.length < 6 then List.replicate (6 - digits.length) '0' ++ digits else digits

/-- The element of a cached role. -/
def roleJson (roleId : UInt64) (role : Role) : Except Exception Json := do
  let j ← Json.null.assign "id" (snowflakeJson roleId)
  let j ← j.assign "name" (.string role.name)
  assignIf (role.colour ≠ 0) j "color" (.string ("#" ++ hexColor role.colour))

/-- One round of the loop over the member's roles. -/
def pushRole (cache : RoleCache) (roles : List Json) (roleId : UInt64) :
    Except Exception (List Json) :=
  match cache.findRole roleId with
  | some role => do
      let j ← roleJson roleId role
      return roles ++ [j]
  | none => .ok roles

/-- The `user` member of the request. -/
def userJson (cache : RoleCache) (user : User) (member : GuildMember) : Except Exception Json := do
  let j ← Json.null.assign "id" (snowflakeJson user.id)
  let j ← j.assign "name" (.string (displayName user member))
  let j ← assignIf (avatarOf user member ≠ "") j "avatar" (.string (avatarOf user member))
  let j ← j.assign "default_avatar_index" (.numberUnsigned (defaultAvatarIndex user).toUInt64)
  let roles ← member.roles.foldlM (pushRole cache) []
  j.assign "roles" (.array roles)

/-- The body of `/appeal-invitations/create`. -/
def requestBody (cache : RoleCache) (user : User) (found : Found) : Except Exception Json := do
  let body ← Json.null.assign "guild_id" (snowflakeJson found.guildId)
  let userObject ← userJson cache user found.member
  body.assign "user" userObject

/-- What the element of a role contains. -/
def roleValue (roleId : UInt64) (role : Role) : Json :=
  .object <|
    (if role.colour ≠ 0 then [("color", .string ("#" ++ hexColor role.colour))] else []) ++
      [("id", snowflakeJson roleId), ("name", .string role.name)]

/-- What the `user` member contains. -/
def userValue (cache : RoleCache) (user : User) (member : GuildMember) : Json :=
  .object <|
    (if avatarOf user member ≠ "" then [("avatar", .string (avatarOf user member))] else []) ++
      [("default_avatar_index", .numberUnsigned (defaultAvatarIndex user).toUInt64),
       ("id", snowflakeJson user.id),
       ("name", .string (displayName user member)),
       ("roles", .array (member.roles.filterMap fun roleId =>
          (cache.findRole roleId).map (roleValue roleId)))]

theorem roleJson_eq (roleId : UInt64) (role : Role) :
    roleJson roleId role = .ok (roleValue roleId role) := by
  unfold roleJson roleValue assignIf
  by_cases h : role.colour = 0
  · rw [h]
    rfl
  · simp only [ne_eq, h, not_false_eq_true, decide_true, if_true]
    rfl

theorem foldlM_pushRole (cache : RoleCache) (roleIds : List UInt64) (done : List Json) :
    roleIds.foldlM (pushRole cache) done =
      .ok (done ++ roleIds.filterMap fun roleId =>
        (cache.findRole roleId).map (roleValue roleId)) := by
  induction roleIds generalizing done with
  | nil => simp; rfl
  | cons roleId roleIds ih =>
    rw [List.foldlM_cons]
    cases hrole : cache.findRole roleId with
    | none =>
      have push : pushRole cache done roleId = .ok done := by
        rw [pushRole, hrole]
      rw [List.filterMap_cons_none (by rw [hrole]; rfl), push]
      exact ih done
    | some role =>
      have push : pushRole cache done roleId = .ok (done ++ [roleValue roleId role]) := by
        simp only [pushRole, hrole, roleJson_eq]
        rfl
      rw [List.filterMap_cons_some (by rw [hrole]; rfl), push]
      exact (ih _).trans (by simp)

theorem userJson_eq (cache : RoleCache) (user : User) (member : GuildMember) :
    userJson cache user member = .ok (userValue cache user member) := by
  unfold userJson userValue assignIf
  rw [foldlM_pushRole]
  by_cases h : avatarOf user member = ""
  · rw [h]
    rfl
  · simp only [ne_eq, h, not_false_eq_true, decide_true, if_true]
    rfl

/-- Building the request throws nothing. -/
theorem requestBody_eq (cache : RoleCache) (user : User) (found : Found) :
    requestBody cache user found = .ok (.object
      [("guild_id", snowflakeJson found.guildId),
       ("user", userValue cache user found.member)]) := by
  unfold requestBody
  rw [userJson_eq]
  rfl

/-! ### The command -/

variable (P : Platform) (translations : Translations)

/-- A reply in the user's language. -/
def reply (event : Interaction) (message : String) : Event :=
  .replied message (translations.translate message event.locale)

/-- What happened is logged, and the user gets a message about it. -/
def fail (event : Interaction) (log message : String) : List Event :=
  [.logged log, reply translations event message]

/-- From the parsed answer on, when it carries an embed. -/
def showEmbed (event : Interaction) (json : Json) (answer : HttpRequestCompletion) : Run :=
  match (do Embed.ofJson P (← json.subscript "embed")) with
  | .error e => { events := [], escaped := some e }
  | .ok embed =>
      let result := P.httpInfo answer
      { events := .repliedEmbed embed ::
          if P.isError result then
            fail translations event
              ("Appeal invitation embed could not be sent: " ++ (P.getError result).humanReadable)
              noResponse
          else [] }

/-- From the completion of the request on. -/
def handleResponse (event : Interaction) (body : Json) (response answer : HttpRequestCompletion) :
    Run :=
  let failed := toString response.status ++
    " API-Error while requesting /appeal-invitations/create: " ++ response.body ++ "\nBody: " ++
    P.dump body
  if response.status = 503 then { events := [reply translations event maintenance] }
  else if response.status ≥ 500 then { events := fail translations event failed apiError }
  else if response.status ≥ 400 then { events := fail translations event failed noResponse }
  else
    match P.parse response.body with
    | .error what =>
        { events := fail translations event
            ("JSON parse error after appeal creation. Status: " ++ toString response.status ++
              "\nResponse:\n" ++ response.body ++ "\nException:\n" ++ what)
            noResponse }
    | .ok json =>
        if json.contains "embed" then showEmbed P translations event json answer
        else
          { events := fail translations event
              ("Appeal invitation doesn't contain an embed for user " ++
                toString event.issuingUser.id ++ "\nResponse: " ++ response.body)
              noResponse }

/-- Building and posting the request. -/
def postAppeal (roles : RoleCache) (event : Interaction) (found : Found)
    (response answer : HttpRequestCompletion) : Run :=
  match requestBody roles event.issuingUser found with
  | .error e => { events := [], escaped := some e }
  | .ok body => (handleResponse P translations event body response answer).after (.posted body)

/-- The context in which the bot checks that it can message the user. -/
def needsProbe (event : Interaction) : Bool :=
  event.context.isSome && event.context ≠ some .botDm

/-- The completion of the probe: the creation of its channel, if there was none yet, and the
answer to its message. -/
structure Probe extends Answer where
  channel : Option HttpRequestCompletion := none
deriving DecidableEq

/-- A channel and a message are filled from the answers before the probe is handed on. -/
def Probe.reads (probe : Probe) : Bool :=
  (probe.channel.all fun rv => (Channel.ofJson (P.postRest rv).1).isSome) &&
    P.fillMessage probe.caches (P.postRest probe.toHttpRequestCompletion).1

/-- `handle_appeal`. -/
def handleAppeal (guilds : GuildCache) (roles : RoleCache) (event : Interaction)
    (probe : Probe) (response answer : HttpRequestCompletion) : Run :=
  match selectGuild guilds event with
  | none => { events := [reply translations event mustBeInGuild] }
  | some found =>
      if needsProbe event then
        let result := P.httpInfo probe.toHttpRequestCompletion
        Run.after (.probed event.issuingUser.id) <|
          if !probe.reads P then { events := [] }
          else if result.status = 403 then { events := [reply translations event cannotMessage] }
          else if result.status ≠ 400 then
            { events := fail translations event
                ("Failed to check whether user " ++ toString event.issuingUser.id ++ " in guild " ++
                  toString found.guildId ++ " can be sent a DM. Status: " ++
                  toString result.status ++ " Response: " ++ result.body)
                noResponse }
          else postAppeal P translations roles event found response answer
      else postAppeal P translations roles event found response answer

/-! ### The ways a run goes -/

/-- The appeal goes on after the probe, or needs none. -/
def passesProbe (event : Interaction) (probe : Probe) : Bool :=
  !needsProbe event || probe.reads P && probe.status = 400

/-- What happened before the request. -/
def asked (event : Interaction) : List Event :=
  if needsProbe event then [.probed event.issuingUser.id] else []

/-- No guild was selected, or the probe is never handed on, or it failed, or the appeal is
posted. -/
theorem handleAppeal_cases (guilds : GuildCache) (roles : RoleCache) (event : Interaction)
    (probe : Probe) (response answer : HttpRequestCompletion) :
    let run := handleAppeal P translations guilds roles event probe response answer
    (selectGuild guilds event = none ∧
      run = { events := [reply translations event mustBeInGuild] }) ∨
    (∃ found, selectGuild guilds event = some found ∧ passesProbe P event probe = false ∧
      needsProbe event = true ∧ probe.reads P = false ∧ run = { events := asked event }) ∨
    (∃ found, selectGuild guilds event = some found ∧ passesProbe P event probe = false ∧
      probe.reads P = true ∧
      (run = { events := asked event ++ [reply translations event cannotMessage] } ∨
        ∃ log, run = { events := asked event ++ fail translations event log noResponse })) ∨
    (∃ found, selectGuild guilds event = some found ∧ passesProbe P event probe = true ∧
      run =
        let filed := postAppeal P translations roles event found response answer
        { filed with events := asked event ++ filed.events }) := by
  unfold handleAppeal passesProbe asked
  cases hselect : selectGuild guilds event with
  | none => exact .inl ⟨rfl, rfl⟩
  | some found =>
    cases hneeds : needsProbe event with
    | false => exact .inr (.inr (.inr ⟨found, rfl, rfl, rfl⟩))
    | true =>
      cases hread : probe.reads P with
      | false => exact .inr (.inl ⟨found, rfl, rfl, rfl, rfl, rfl⟩)
      | true =>
        simp only [Platform.httpInfo_status, if_true, Bool.not_true, Bool.false_or, Bool.true_and,
          Bool.false_eq_true, if_false]
        by_cases h403 : probe.status = 403
        · refine .inr (.inr (.inl ⟨found, rfl, ?_, trivial, .inl ?_⟩))
          · rw [h403]
            rfl
          · rw [if_pos h403]
            rfl
        · rw [if_neg h403]
          by_cases h400 : probe.status = 400
          · refine .inr (.inr (.inr ⟨found, rfl, decide_eq_true h400, ?_⟩))
            rw [if_neg (not_not.mpr h400)]
            rfl
          · refine .inr (.inr (.inl ⟨found, rfl, decide_eq_false h400, trivial, .inr ?_⟩))
            rw [if_pos h400]
            exact ⟨_, rfl⟩

end Appeals
