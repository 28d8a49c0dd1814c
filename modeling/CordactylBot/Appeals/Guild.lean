import CordactylBot.Appeals.System

/-!
The guild an appeal is filed for.

The search goes through the mutual guilds of the user in whatever order the maps have,
and takes the only one or gives up at a second (`searchGuilds_eq`). When there is none
it leaves its zero markers, which then fall back to the interaction's own fields, as if
the command had been run in a guild.

* `selectGuild_outside` — what is selected outside of a guild, by the mutual guilds.
* `appeal_guild` — for which interactions this is the right guild.
-/

namespace Appeals

/-! ### The mutual guilds -/

/-- The mutual guilds in iteration order, each with the user's entry. -/
def mutualGuilds (user : UInt64) (guilds : List (UInt64 × Guild)) : List (UInt64 × GuildMember) :=
  guilds.flatMap fun entry =>
    (entry.2.members.filter (·.1 = user)).map fun member => (entry.1, member.2)

theorem mem_mutualGuilds {guilds : GuildCache} {user id : UInt64} {member : GuildMember} :
    (id, member) ∈ mutualGuilds user guilds.guilds ↔ guilds.Mutual user id member := by
  simp only [mutualGuilds, List.mem_flatMap, List.mem_map, List.mem_filter, decide_eq_true_eq,
    GuildCache.Mutual]
  constructor
  · rintro ⟨⟨_, guild⟩, hguild, ⟨_, _⟩, ⟨hmember, rfl⟩, heq⟩
    cases heq
    exact ⟨guild, hguild, hmember⟩
  · rintro ⟨guild, hguild, hmember⟩
    exact ⟨(id, guild), hguild, (user, member), ⟨hmember, rfl⟩, rfl⟩

/-- An iteration meets a mutual guild once. -/
theorem nodup_mutualGuilds (user : UInt64) (guilds : GuildCache) :
    (mutualGuilds user guilds.guilds).Nodup := by
  refine List.nodup_flatMap.mpr ⟨?_, ?_⟩
  · intro entry _
    refine (entry.2.nodup.of_map.filter _).map_on fun a ha b hb heq => ?_
    have hkey : a.1 = b.1 := by
      rw [of_decide_eq_true (List.mem_filter.mp ha).2, of_decide_eq_true (List.mem_filter.mp hb).2]
    exact Prod.ext hkey (Prod.mk.inj heq).2
  · refine (List.pairwise_map.mp guilds.nodup).imp fun hne => ?_
    intro entry ha hb
    obtain ⟨_, -, rfl⟩ := List.mem_map.mp ha
    obtain ⟨_, -, heq⟩ := List.mem_map.mp hb
    exact hne (Prod.mk.inj heq).1.symm

/-- Two mutual guilds of an iteration have different ids. -/
theorem nodup_ids (user : UInt64) (guilds : GuildCache) :
    ((mutualGuilds user guilds.guilds).map Prod.fst).Nodup := by
  refine (nodup_mutualGuilds user guilds).map_on fun a ha b hb heq => ?_
  obtain ⟨id, m⟩ := a
  obtain ⟨id', m'⟩ := b
  obtain rfl : id = id' := heq
  rw [(mem_mutualGuilds.mp ha).unique (mem_mutualGuilds.mp hb)]

/-- The search takes the next mutual guild, or returns at a second. -/
def take (found : Found) (entry : UInt64 × GuildMember) : Option Found :=
  if found.guildId ≠ 0 then none else some { guildId := entry.1, member := entry.2 }

theorem searchMembers_eq (user id : UInt64) (members : List (UInt64 × GuildMember))
    (found : Found) :
    searchMembers user id members found =
      ((members.filter (·.1 = user)).map fun member => (id, member.2)).foldlM take found := by
  induction members generalizing found with
  | nil => rfl
  | cons entry members ih =>
    obtain ⟨key, member⟩ := entry
    rw [searchMembers]
    split
    · rename_i hkey
      rw [List.filter_cons_of_pos (by simpa using hkey), List.map_cons, List.foldlM_cons, take]
      split
      · rfl
      · exact ih _
    · rename_i hkey
      rw [List.filter_cons_of_neg (by simpa using hkey)]
      exact ih found

theorem searchGuilds_foldlM (user : UInt64) (guilds : List (UInt64 × Guild)) (found : Found) :
    searchGuilds user guilds found = (mutualGuilds user guilds).foldlM take found := by
  induction guilds generalizing found with
  | nil => rfl
  | cons entry guilds ih =>
    rw [searchGuilds, searchMembers_eq, mutualGuilds, List.flatMap_cons, List.foldlM_append]
    exact congrArg _ (funext ih)

/-- What a search makes of the mutual guilds. -/
def soleOf : List (UInt64 × GuildMember) → Option Found
  | [] => some {}
  | [entry] => some { guildId := entry.1, member := entry.2 }
  | _ => none

/-- **The search.** -/
theorem searchGuilds_eq (user : UInt64) (guilds : GuildCache) :
    searchGuilds user guilds.guilds {} = soleOf (mutualGuilds user guilds.guilds) := by
  rw [searchGuilds_foldlM]
  have nonzero : ∀ entry ∈ mutualGuilds user guilds.guilds, entry.1 ≠ 0 := fun entry h =>
    (mem_mutualGuilds.mp h).ne_zero
  cases hmutual : mutualGuilds user guilds.guilds with
  | nil => rfl
  | cons first rest =>
    have hfirst : first.1 ≠ 0 := nonzero first (by simp [hmutual])
    cases rest with
    | nil => rfl
    | cons second rest =>
      have again : take { guildId := first.1, member := first.2 } second = none := if_pos hfirst
      exact congrArg (·.bind fun found => rest.foldlM take found) again

theorem soleOf_perm {entries entries' : List (UInt64 × GuildMember)}
    (h : entries.Perm entries') : soleOf entries = soleOf entries' := by
  induction h with
  | nil => rfl
  | @cons entry rest rest' h ih =>
    cases rest with
    | nil => rw [List.nil_perm.mp h]
    | cons second rest =>
      cases rest' with
      | nil => exact absurd (List.perm_nil.mp h) (List.cons_ne_nil second rest)
      | cons second' rest' => rfl
  | swap entry entry' rest => rfl
  | trans _ _ ih ih' => exact ih.trans ih'

/-- Caches with the same members in the same guilds are searched with the same result,
in whatever order they are iterated. -/
theorem searchGuilds_congr {guilds guilds' : GuildCache} {user : UInt64}
    (same : ∀ id member, guilds.Mutual user id member ↔ guilds'.Mutual user id member) :
    searchGuilds user guilds.guilds {} = searchGuilds user guilds'.guilds {} := by
  rw [searchGuilds_eq, searchGuilds_eq]
  apply soleOf_perm
  rw [List.perm_ext_iff_of_nodup (nodup_mutualGuilds user guilds) (nodup_mutualGuilds user guilds')]
  rintro ⟨id, member⟩
  rw [mem_mutualGuilds, mem_mutualGuilds, same]

/-! ### The guild that is selected -/

/-- The guild with this id is the only mutual one, and the user's entry is `member`. -/
def Only (guilds : GuildCache) (user id : UInt64) (member : GuildMember) : Prop :=
  guilds.Mutual user id member ∧ ∀ id' member', guilds.Mutual user id' member' → id' = id

/-- There are two mutual guilds. -/
def Several (guilds : GuildCache) (user : UInt64) : Prop :=
  ∃ id id' member member', id ≠ id' ∧ guilds.Mutual user id member ∧
    guilds.Mutual user id' member'

/-- No mutual guild, one, or several. -/
theorem search_cases (guilds : GuildCache) (user : UInt64) :
    (searchGuilds user guilds.guilds {} = some {} ∧ ∀ id member, ¬ guilds.Mutual user id member) ∨
    (∃ id member, searchGuilds user guilds.guilds {} = some { guildId := id, member } ∧
      Only guilds user id member) ∨
    (searchGuilds user guilds.guilds {} = none ∧ Several guilds user) := by
  rw [searchGuilds_eq]
  have ids := nodup_ids user guilds
  simp only [Only, Several, ← mem_mutualGuilds]
  cases hmutual : mutualGuilds user guilds.guilds with
  | nil => exact .inl ⟨rfl, by simp⟩
  | cons first rest =>
    obtain ⟨id, member⟩ := first
    cases rest with
    | nil => exact .inr (.inl ⟨id, member, rfl, by simp, fun id' member' h => by simp_all⟩)
    | cons second rest =>
      obtain ⟨id', member'⟩ := second
      rw [hmutual] at ids
      have hne : id ≠ id' := fun h => (List.nodup_cons.mp ids).1 (by simp [h])
      exact .inr (.inr ⟨rfl, id, id', member, member', hne, by simp, by simp⟩)

theorem selectGuild_inside {guilds : GuildCache} {event : Interaction}
    (h : outsideGuild event = false) :
    selectGuild guilds event = some { guildId := event.guildId, member := event.member } := by
  rw [selectGuild, if_neg (by simp [h])]
  rfl

/-- **The selected guild**, outside of one: the fallback to the interaction, the only
mutual guild, or none. -/
theorem selectGuild_outside (guilds : GuildCache) {event : Interaction}
    (h : outsideGuild event = true) :
    (selectGuild guilds event = some { guildId := event.guildId, member := event.member } ∧
      ∀ id member, ¬ guilds.Mutual event.issuingUser.id id member) ∨
    (∃ id member, Only guilds event.issuingUser.id id member ∧ selectGuild guilds event = some
      { guildId := id, member := if event.issuingUser.id = 0 then event.member else member }) ∨
    (selectGuild guilds event = none ∧ Several guilds event.issuingUser.id) := by
  rw [selectGuild, if_pos h]
  rcases search_cases guilds event.issuingUser.id with
    ⟨hsearch, hnone⟩ | ⟨id, member, hsearch, only⟩ | ⟨hsearch, several⟩
  · rw [hsearch]
    exact .inl ⟨rfl, hnone⟩
  · rw [hsearch]
    refine .inr (.inl ⟨id, member, only, ?_⟩)
    have hid : id ≠ 0 := only.1.ne_zero
    have huser : member.userId = event.issuingUser.id := only.1.userId
    simp [hid, huser]
  · rw [hsearch]
    exact .inr (.inr ⟨rfl, several⟩)

/-! ### What a run posts, and what it tells -/

variable {P : Platform} {translations : Translations}

/-- Neither a request, nor the advice to use the command in a guild. -/
def Unrelated (e : Event) : Prop :=
  (∀ body, e ≠ .posted body) ∧ ∀ text, e ≠ .replied mustBeInGuild text

theorem unrelated_reply {event : Interaction} {message : String} (h : message ≠ mustBeInGuild) :
    Unrelated (reply translations event message) :=
  ⟨by simp [reply], fun _ heq => h (Event.replied.inj heq).1⟩

theorem unrelated_fail {event : Interaction} {log message : String} (h : message ≠ mustBeInGuild) :
    ∀ e ∈ fail translations event log message, Unrelated e := by
  refine List.forall_mem_cons.mpr ⟨⟨by simp, by simp⟩, ?_⟩
  exact List.forall_mem_cons.mpr ⟨unrelated_reply h, List.forall_mem_nil _⟩

theorem noResponse_ne : noResponse ≠ mustBeInGuild := by decide

theorem unrelated_showEmbed {event : Interaction} {json : Json} {answer : HttpRequestCompletion} :
    ∀ e ∈ (showEmbed P translations event json answer).events, Unrelated e := by
  unfold showEmbed
  split
  · exact List.forall_mem_nil _
  · refine List.forall_mem_cons.mpr ⟨⟨by simp, by simp⟩, ?_⟩
    split
    · exact unrelated_fail noResponse_ne
    · exact List.forall_mem_nil _

theorem unrelated_handleResponse {event : Interaction} {body : Json}
    {response answer : HttpRequestCompletion} :
    ∀ e ∈ (handleResponse P translations event body response answer).events, Unrelated e := by
  unfold handleResponse
  dsimp only
  split
  · exact List.forall_mem_cons.mpr ⟨unrelated_reply (by decide), List.forall_mem_nil _⟩
  split
  · exact unrelated_fail (by decide)
  split
  · exact unrelated_fail noResponse_ne
  split
  · exact unrelated_fail noResponse_ne
  split
  · exact unrelated_showEmbed
  · exact unrelated_fail noResponse_ne

theorem unrelated_asked (event : Interaction) : ∀ e ∈ asked event, Unrelated e := by
  unfold asked
  split
  · exact List.forall_mem_cons.mpr ⟨⟨by simp, by simp⟩, List.forall_mem_nil _⟩
  · exact List.forall_mem_nil _

/-- An appeal that gets past the search and the probe is posted. -/
theorem postAppeal_eq (P : Platform) (translations : Translations) (roles : RoleCache)
    (event : Interaction) (found : Found) (response answer : HttpRequestCompletion) :
    ∃ body, requestBody roles event.issuingUser found = .ok body ∧
      postAppeal P translations roles event found response answer =
        (handleResponse P translations event body response answer).after (.posted body) := by
  refine ⟨_, requestBody_eq roles event.issuingUser found, ?_⟩
  rw [postAppeal, requestBody_eq]

/-- The related events of a run: the advice when no guild was selected, else the request
if the probe is passed. -/
theorem related_iff {guilds : GuildCache} {roles : RoleCache} {event : Interaction}
    {probe : Probe} {response answer : HttpRequestCompletion} {e : Event} (related : ¬ Unrelated e) :
    e ∈ (handleAppeal P translations guilds roles event probe response answer).events ↔
      (selectGuild guilds event = none ∧ e = reply translations event mustBeInGuild) ∨
      ∃ found, selectGuild guilds event = some found ∧ passesProbe P event probe = true ∧
        ∃ body, requestBody roles event.issuingUser found = .ok body ∧ e = .posted body := by
  obtain ⟨hselect, hrun⟩ | ⟨found, hselect, hprobe, -, -, hrun⟩ |
      ⟨found, hselect, hprobe, -, hrun⟩ | ⟨found, hselect, hprobe, hrun⟩ :=
    handleAppeal_cases P translations guilds roles event probe response answer
  · rw [hrun, hselect]
    simp
  · have hnot : e ∉ asked event := fun he => related (unrelated_asked event e he)
    simp [hrun, hnot, hselect, hprobe]
  · have hnot :
        e ∉ (handleAppeal P translations guilds roles event probe response answer).events := by
      intro he
      rcases hrun with hrun | ⟨log, hrun⟩
      · rw [hrun] at he
        rcases List.mem_append.mp he with he | he
        · exact related (unrelated_asked event e he)
        · rw [List.mem_singleton.mp he] at related
          exact related (unrelated_reply (by decide))
      · rw [hrun] at he
        rcases List.mem_append.mp he with he | he
        · exact related (unrelated_asked event e he)
        · exact related (unrelated_fail noResponse_ne e he)
    simp [hnot, hselect, hprobe]
  · obtain ⟨body, hbody, hfiled⟩ :=
      postAppeal_eq P translations roles event found response answer
    rw [hrun, hfiled, hselect]
    simp only [Run.after, List.mem_append, List.mem_cons]
    constructor
    · rintro (he | rfl | he)
      · exact absurd (unrelated_asked event e he) related
      · exact .inr ⟨found, rfl, hprobe, body, hbody, rfl⟩
      · exact absurd (unrelated_handleResponse e he) related
    · rintro (⟨h, -⟩ | ⟨found', h, -, body', hbody', rfl⟩)
      · cases h
      · cases h
        rw [hbody, Except.ok.injEq] at hbody'
        exact .inr (.inl (by rw [hbody']))

theorem posted_iff {guilds : GuildCache} {roles : RoleCache} {event : Interaction}
    {probe : Probe} {response answer : HttpRequestCompletion} {body : Json} :
    .posted body ∈ (handleAppeal P translations guilds roles event probe response answer).events ↔
      ∃ found, selectGuild guilds event = some found ∧ passesProbe P event probe = true ∧
        requestBody roles event.issuingUser found = .ok body := by
  rw [related_iff fun h => h.1 body rfl]
  simp [reply]

theorem told_iff {guilds : GuildCache} {roles : RoleCache} {event : Interaction}
    {probe : Probe} {response answer : HttpRequestCompletion} :
    (∃ text, .replied mustBeInGuild text ∈
        (handleAppeal P translations guilds roles event probe response answer).events) ↔
      selectGuild guilds event = none := by
  constructor
  · rintro ⟨text, h⟩
    rw [related_iff fun h => h.2 text rfl] at h
    rcases h with ⟨h, -⟩ | ⟨_, -, -, _, -, h⟩
    · exact h
    · cases h
  · intro h
    refine ⟨translations.translate mustBeInGuild event.locale, ?_⟩
    rw [related_iff fun h => h.2 _ rfl]
    exact .inl ⟨h, rfl⟩

/-! ### The right guild -/

/-- The guild the appeal is for: the interaction's own, or the only mutual one, with the
record of its member. -/
def RightGuild (guilds : GuildCache) (event : Interaction) (id : UInt64) (member : GuildMember) :
    Prop :=
  id ≠ 0 ∧
    if outsideGuild event then Only guilds event.issuingUser.id id member
    else id = event.guildId ∧ member = event.member

/-- An appeal is posted for the right guild only, and is refused if there is none. -/
structure FiledRight (guilds : GuildCache) (roles : RoleCache) (event : Interaction) (run : Run) :
    Prop where
  posted : ∀ body, .posted body ∈ run.events → ∃ id member, RightGuild guilds event id member ∧
    requestBody roles event.issuingUser { guildId := id, member } = .ok body
  refused : outsideGuild event = true →
    (∀ id member, ¬ Only guilds event.issuingUser.id id member) →
    (∀ body, .posted body ∉ run.events) ∧ ∃ text, .replied mustBeInGuild text ∈ run.events

/-- The command was run in a guild, or there are several mutual guilds, or there is one
and the entry in it is used. An entry with the user id 0 would not be. -/
def Resolvable (P : Platform) (guilds : GuildCache) (roles : RoleCache) (event : Interaction)
    (probe : Probe) : Prop :=
  outsideGuild event = false ∨ Several guilds event.issuingUser.id ∨
    ∃ id member, Only guilds event.issuingUser.id id member ∧
      (event.issuingUser.id = 0 → passesProbe P event probe = true →
        userValue roles event.issuingUser event.member = userValue roles event.issuingUser member)

theorem Only.unique {guilds : GuildCache} {user id id' : UInt64} {m m' : GuildMember}
    (h : Only guilds user id m) (h' : Only guilds user id' m') : id' = id ∧ m' = m := by
  have hid := h.2 id' m' h'.1
  subst hid
  exact ⟨rfl, h'.1.unique h.1⟩

theorem Only.not_several {guilds : GuildCache} {user id : UInt64} {m : GuildMember}
    (h : Only guilds user id m) : ¬ Several guilds user := by
  rintro ⟨id₁, id₂, m₁, m₂, hne, h₁, h₂⟩
  exact hne ((h.2 id₁ m₁ h₁).trans (h.2 id₂ m₂ h₂).symm)

theorem requestBody_inj {roles : RoleCache} {user : User} {found found' : Found} {body : Json}
    (h : requestBody roles user found = .ok body) (h' : requestBody roles user found' = .ok body) :
    userValue roles user found.member = userValue roles user found'.member := by
  rw [requestBody_eq] at h h'
  cases h
  simp only [Except.ok.injEq, Json.object.injEq, List.cons.injEq, Prod.mk.injEq, true_and,
    and_true] at h'
  exact h'.2.symm

section

variable {guilds : GuildCache} {roles : RoleCache} {event : Interaction}
  {probe : Probe} {response answer : HttpRequestCompletion}

theorem filedRight_inside (h : outsideGuild event = false) :
    FiledRight guilds roles event
      (handleAppeal P translations guilds roles event probe response answer) := by
  have hguild : event.guildId ≠ 0 := by
    simp only [outsideGuild, Bool.or_eq_false_iff, decide_eq_false_iff_not] at h
    exact h.2
  constructor
  · intro body hposted
    obtain ⟨found, hselect, -, hbody⟩ := posted_iff.mp hposted
    rw [selectGuild_inside h, Option.some.injEq] at hselect
    refine ⟨event.guildId, event.member, ⟨hguild, ?_⟩, hselect ▸ hbody⟩
    rw [if_neg (by simp [h])]
    exact ⟨rfl, rfl⟩
  · intro h'
    rw [h] at h'
    cases h'

/-- Without a mutual guild nobody is told to use the command in a guild. -/
theorem not_filedRight_of_none (houtside : outsideGuild event = true)
    (hselect : selectGuild guilds event ≠ none)
    (hnone : ∀ id member, ¬ guilds.Mutual event.issuingUser.id id member) :
    ¬ FiledRight guilds roles event
      (handleAppeal P translations guilds roles event probe response answer) := by
  intro h
  have told := (h.refused houtside fun id member only => hnone id member only.1).2
  exact hselect (told_iff.mp told)

theorem filedRight_of_several (hselect : selectGuild guilds event = none) :
    FiledRight guilds roles event
      (handleAppeal P translations guilds roles event probe response answer) := by
  have unposted : ∀ body, .posted body ∉
      (handleAppeal P translations guilds roles event probe response answer).events := by
    intro body hposted
    obtain ⟨found, hfound, -⟩ := posted_iff.mp hposted
    rw [hselect] at hfound
    cases hfound
  exact ⟨fun body hposted => absurd hposted (unposted body),
    fun _ _ => ⟨unposted, told_iff.mpr hselect⟩⟩

/-- With one mutual guild it depends on whose data the request contains. -/
theorem filedRight_of_only {id : UInt64} {member : GuildMember}
    (houtside : outsideGuild event = true)
    (only : Only guilds event.issuingUser.id id member)
    (hselect : selectGuild guilds event = some
      { guildId := id, member := if event.issuingUser.id = 0 then event.member else member }) :
    FiledRight guilds roles event
        (handleAppeal P translations guilds roles event probe response answer) ↔
      (event.issuingUser.id = 0 → passesProbe P event probe = true →
        userValue roles event.issuingUser event.member =
          userValue roles event.issuingUser member) := by
  constructor
  · intro h hzero hprobe
    rw [if_pos hzero] at hselect
    obtain ⟨id', member', ⟨-, right⟩, hbody'⟩ :=
      h.posted _ (posted_iff.mpr ⟨_, hselect, hprobe, requestBody_eq roles _ _⟩)
    rw [if_pos houtside] at right
    obtain ⟨rfl, rfl⟩ := only.unique right
    exact (requestBody_inj hbody' (requestBody_eq roles _ _)).symm
  · intro h
    constructor
    · intro body hposted
      obtain ⟨found, hfound, hprobe, hbody⟩ := posted_iff.mp hposted
      rw [hselect, Option.some.injEq] at hfound
      refine ⟨id, member, ⟨only.1.ne_zero, ?_⟩, ?_⟩
      · rw [if_pos houtside]
        exact only
      · subst hfound
        by_cases hzero : event.issuingUser.id = 0
        · rw [if_pos hzero, requestBody_eq] at hbody
          rw [requestBody_eq, ← h hzero hprobe]
          exact hbody
        · rw [if_neg hzero] at hbody
          exact hbody
    · exact fun _ hnone => absurd only (hnone id member)

end

/-- **When an appeal is filed for the right guild.** And the iteration order of the
guilds and their members plays no part in a run. -/
theorem appeal_guild (P : Platform) (translations : Translations) (guilds : GuildCache)
    (roles : RoleCache) (event : Interaction) (probe : Probe) (response answer : HttpRequestCompletion) :
    (FiledRight guilds roles event
        (handleAppeal P translations guilds roles event probe response answer) ↔
      Resolvable P guilds roles event probe) ∧
    ∀ guilds' : GuildCache, (∀ id member, guilds.Mutual event.issuingUser.id id member ↔
        guilds'.Mutual event.issuingUser.id id member) →
      handleAppeal P translations guilds' roles event probe response answer =
        handleAppeal P translations guilds roles event probe response answer := by
  constructor
  · unfold Resolvable
    cases houtside : outsideGuild event with
    | false => exact iff_of_true (filedRight_inside houtside) (.inl rfl)
    | true =>
      rcases selectGuild_outside guilds houtside with
        ⟨hselect, hnone⟩ | ⟨id, member, only, hselect⟩ | ⟨hselect, several⟩
      · refine iff_of_false (not_filedRight_of_none houtside (by simp [hselect]) hnone) ?_
        rintro (h | ⟨id, _, member, _, -, hmutual, -⟩ | ⟨id, member, only, -⟩)
        · cases h
        · exact hnone id member hmutual
        · exact hnone id member only.1
      · refine (filedRight_of_only houtside only hselect).trans ?_
        constructor
        · exact fun h => .inr (.inr ⟨id, member, only, h⟩)
        · rintro (h | several | ⟨id', member', only', h⟩)
          · cases h
          · exact absurd several only.not_several
          · exact (only.unique only').2 ▸ h
      · exact iff_of_true (filedRight_of_several hselect) (.inr (.inl several))
  · intro guilds' same
    have hselect : selectGuild guilds' event = selectGuild guilds event := by
      rw [selectGuild, selectGuild, searchGuilds_congr same]
    rw [handleAppeal, handleAppeal, hselect]

/-- The command, run in a direct message with the bot. -/
def inDirectMessage : Interaction where
  context := some .botDm
  guildId := 0
  issuingUser := { id := 9, username := "name" }
  member := { userId := 9 }
  locale := "en"

/-- The command in a guild, by a member with one role that is not in the cache. -/
def inGuild : Interaction where
  context := some .guild
  guildId := 5
  issuingUser := { id := 9, username := "name" }
  member := { roles := [2, 3, 1], userId := 9 }
  locale := "en"

def memberEntry (user : UInt64) (nickname : String) : UInt64 × GuildMember :=
  (user, { nickname, userId := user })

/-- A guild with the issuer and one without. -/
def guildOfBoth : Guild where
  members := [memberEntry 8 "other", memberEntry 9 "nick"]
  nodup := by decide
  keyed := by decide

def guildOfOther : Guild where
  members := [memberEntry 8 "other"]
  nodup := by decide
  keyed := by decide

def twoGuilds : GuildCache where
  guilds := [(5, guildOfBoth), (6, guildOfOther)]
  nodup := by decide
  nonzero := by simp

def twoGuildsReversed : GuildCache where
  guilds := [(6, guildOfOther), (5, guildOfBoth)]
  nodup := by decide
  nonzero := by simp

def noGuilds : GuildCache where
  guilds := []
  nodup := .nil
  nonzero := by simp

def noRoles : RoleCache where
  roles := ∅
  keyed := by simp

theorem twoGuilds_mutual {id : UInt64} {member : GuildMember} :
    twoGuilds.Mutual 9 id member ↔ id = 5 ∧ member = (memberEntry 9 "nick").2 := by
  have found : mutualGuilds 9 twoGuilds.guilds = [(5, (memberEntry 9 "nick").2)] := by decide
  rw [← mem_mutualGuilds, found, List.mem_singleton, Prod.mk.injEq]

theorem twoGuildsReversed_mutual {id : UInt64} {member : GuildMember} :
    twoGuildsReversed.Mutual 9 id member ↔ id = 5 ∧ member = (memberEntry 9 "nick").2 := by
  have found : mutualGuilds 9 twoGuildsReversed.guilds = [(5, (memberEntry 9 "nick").2)] := by
    decide
  rw [← mem_mutualGuilds, found, List.mem_singleton, Prod.mk.injEq]

theorem appeal_guild_inDirectMessage :
    FiledRight twoGuilds noRoles inDirectMessage
      (handleAppeal (.ofTable [] []) ∅ twoGuilds noRoles inDirectMessage {} { status := 503 } {}) ∧
    handleAppeal (.ofTable [] []) ∅ twoGuildsReversed noRoles inDirectMessage {}
        { status := 503 } {} =
      handleAppeal (.ofTable [] []) ∅ twoGuilds noRoles inDirectMessage {} { status := 503 } {} := by
  have only : Only twoGuilds 9 5 (memberEntry 9 "nick").2 :=
    ⟨twoGuilds_mutual.mpr ⟨rfl, rfl⟩, fun _ _ h => (twoGuilds_mutual.mp h).1⟩
  have result := appeal_guild (.ofTable [] []) ∅ twoGuilds noRoles inDirectMessage {}
    { status := 503 } {}
  refine ⟨result.1.mpr (.inr (.inr ⟨5, _, only, fun h => absurd h (by decide)⟩)), ?_⟩
  exact result.2 twoGuildsReversed fun id member =>
    twoGuilds_mutual.trans twoGuildsReversed_mutual.symm

/-- **An appeal of a user the bot shares no guild with is posted, for the guild 0.** -/
theorem appeal_misfiled :
    let run := handleAppeal (.ofTable [] []) ∅ noGuilds noRoles inDirectMessage {}
      { status := 503 } {}
    (∃ body, .posted body ∈ run.events ∧ body.find? "guild_id" = some (.string "0")) ∧
      ¬ FiledRight noGuilds noRoles inDirectMessage run := by
  constructor
  · exact ⟨_, posted_iff.mpr ⟨_, rfl, by decide, requestBody_eq noRoles _ _⟩, rfl⟩
  · apply not_filedRight_of_none
    · decide
    · decide
    · rintro id member ⟨guild, hguild, -⟩
      cases hguild

end Appeals
