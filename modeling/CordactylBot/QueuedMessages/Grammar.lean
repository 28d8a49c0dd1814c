import CordactylBot.Dpp.Shape
import CordactylBot.QueuedMessages

/-!
What the constructor of a queued message accepts.

A message should be an object with three integers and an embed. The constructor reads
the integers with `set_int64_not_null`, which converts any number and leaves its target
alone when the key is absent, and it tests the results for zero only. So a negative or
fractional number passes as another integer, and without `"id"` the message gets what
the storage held before.

* `ofJson_eq_ok_iff` — what the constructor accepts.
* `exact_iff` — on which values that is a message with the ids it lists.
-/

open Dpp

/-- The value of a JSON number that is an integer. -/
def Json.integer? : Json → Option Int
  | .numberInteger n => some n.toInt
  | .numberUnsigned n => some n.toNat
  | .numberFloat q => if q.den = 1 then some q.num else none
  | _ => none

namespace QueuedMessage

variable (P : Platform)

/-- The member is an integer from 1 to 2^64 - 1, and `n` is its value. -/
def Lists (message : Json) (key : String) (n : UInt64) : Prop :=
  n ≠ 0 ∧ (message.find? key).bind Json.integer? = some (n.toNat : Int)

/-- A queued message as the panel should send it. -/
structure Grammatical (message : Json) (id guildId recipient : UInt64) : Prop where
  id : Lists message "id" id
  guildId : Lists message "guild_id" guildId
  recipient : Lists message "recipient" recipient
  embed : ∃ embed, message.find? "embed" = some embed ∧ embed.isObject = true

/-- The constructor returns only on grammatical values, with their integers, and
throws on every other value. -/
structure Exact (now : Int) (storage : UInt64) (message : Json) : Prop where
  returns : ∀ m, ofJson P now storage message = .ok m →
    Grammatical message m.id m.guildId m.recipient
  throws : (¬ ∃ id guildId recipient, Grammatical message id guildId recipient) →
    ∃ e, ofJson P now storage message = .error e

/-! ### What the constructor accepts -/

/-- The integer `set_int64_not_null` makes of a member, if it is not zero. -/
def converted (initial : UInt64) (member : Option Json) : Option UInt64 :=
  let n : UInt64 :=
    match member with
    | none => initial
    | some (.numberUnsigned n) => n
    | some (.numberInteger n) => n.toUInt64
    | some (.numberFloat q) => UInt64.ofNat (Json.castFloat P.castUndefined 64 q)
    | some _ => 0
  if n = 0 then none else some n

/-- The embed is an object its constructor reads. -/
def embedAccepted (message : Json) : Bool :=
  match message.find? "embed" with
  | some embed => embed.isObject && embedReadable embed
  | none => false

theorem readEmbed_succeeds_iff (message : Json) :
    Succeeds (readEmbed P message) ↔ embedAccepted message = true := by
  unfold readEmbed embedAccepted
  split
  · rename_i hcontains
    obtain ⟨embed, hfind⟩ := Json.contains_iff.mp hcontains
    rw [Json.subscript_of_find? hfind, hfind]
    simp only [bind, Except.bind, Bool.and_eq_true]
    split
    · rename_i hobject
      rw [Dpp.ofJson_succeeds_iff, hobject]
      exact (and_iff_right rfl).symm
    · rename_i hobject
      exact iff_of_false (Succeeds.not_error _) fun h => hobject h.1
  · rename_i hcontains
    rw [Json.find?_of_not_contains hcontains]
    exact iff_of_false (Succeeds.not_error _) Bool.false_ne_true

/-- A member is read as the integer it converts to, unless it is zero or the reading throws. -/
theorem converted_eq_some_iff {initial n : UInt64} {message : Json} {key : String} :
    converted P initial (message.find? key) = some n ↔
      setInt64NotNull P message key initial = .ok n ∧ n ≠ 0 := by
  have choose : ∀ k : UInt64, (if k = 0 then none else some k) = some n ↔
      (Except.ok k : Except Exception UInt64) = .ok n ∧ n ≠ 0 := by
    intro k
    split
    · rename_i hk
      subst hk
      simp [eq_comm]
    · rename_i hk
      simp only [Option.some.injEq, Except.ok.injEq]
      exact ⟨fun h => ⟨h, h ▸ hk⟩, fun h => h.1⟩
  unfold converted setInt64NotNull
  cases message.find? key with
  | none => exact choose initial
  | some k =>
    cases k with
    | null => exact choose 0
    | string s => exact choose 0
    | numberUnsigned m => exact choose m
    | numberInteger m => exact choose m.toUInt64
    | numberFloat q => exact choose _
    | _ => simp [Json.isNull, Json.isString, Json.getUInt64]

/-- **What the constructor accepts**: three members that convert to an integer other than
zero, and an embed its own constructor reads. -/
theorem ofJson_eq_ok_iff {now : Int} {storage : UInt64} {message : Json} {m : QueuedMessage} :
    ofJson P now storage message = .ok m ↔
      converted P storage (message.find? "id") = some m.id ∧
      converted P 0 (message.find? "guild_id") = some m.guildId ∧
      converted P 0 (message.find? "recipient") = some m.recipient ∧
      readEmbed P message = .ok m.embed ∧
      m = { id := m.id, guildId := m.guildId, recipient := m.recipient, embed := m.embed,
            processedAt := now } := by
  simp only [converted_eq_some_iff]
  unfold ofJson
  constructor
  · intro h
    cases hid : setInt64NotNull P message "id" storage with
    | error e => simp [hid, bind, Except.bind] at h
    | ok id =>
    cases hguild : setInt64NotNull P message "guild_id" 0 with
    | error e => simp [hid, hguild, bind, Except.bind] at h
    | ok guildId =>
    cases hrecipient : setInt64NotNull P message "recipient" 0 with
    | error e => simp [hid, hguild, hrecipient, bind, Except.bind] at h
    | ok recipient =>
    cases hembed : readEmbed P message with
    | error e => simp [hid, hguild, hrecipient, hembed, bind, Except.bind] at h
    | ok embed =>
      simp only [hid, hguild, hrecipient, hembed, bind, Except.bind] at h
      split at h
      · cases h
      · rename_i hid0
        split at h
        · cases h
        · rename_i hguild0
          split at h
          · cases h
          · rename_i hrecipient0
            cases h
            exact ⟨⟨rfl, hid0⟩, ⟨rfl, hguild0⟩, ⟨rfl, hrecipient0⟩, rfl, rfl⟩
  · rintro ⟨⟨hid, hid0⟩, ⟨hguild, hguild0⟩, ⟨hrecipient, hrecipient0⟩, hembed, hm⟩
    simp only [hid, hguild, hrecipient, hembed, bind, Except.bind, if_neg hid0, if_neg hguild0,
      if_neg hrecipient0]
    rw [hm]
    rfl

/-! ### Members that convert to another integer -/

/-- The members that are read as ids. -/
def idKeys : List String := ["id", "guild_id", "recipient"]

/-- The member is absent, or a number that is negative, fractional or beyond 2^64 - 1. -/
def stray : Option Json → Bool
  | none => true
  | some (.numberInteger n) => n.toInt < 0
  | some (.numberFloat q) => q.den ≠ 1 ∨ q.num < 0 ∨ 2 ^ 64 ≤ q.num
  | _ => false

/-- The constructor accepts the value although one of its ids is stray. -/
def Misread (storage : UInt64) (message : Json) : Prop :=
  embedAccepted message = true ∧ converted P storage (message.find? "id") ≠ none ∧
    converted P 0 (message.find? "guild_id") ≠ none ∧
    converted P 0 (message.find? "recipient") ≠ none ∧
    ∃ key ∈ idKeys, stray (message.find? key) = true

theorem not_lists_of_stray {message : Json} {key : String} {n : UInt64}
    (h : stray (message.find? key) = true) : ¬ Lists message key n := by
  rintro ⟨-, hn⟩
  have bound := n.toNat_lt
  cases hfind : message.find? key with
  | none => rw [hfind] at hn; cases hn
  | some k =>
    rw [hfind] at h hn
    rw [Option.bind_some] at hn
    cases k with
    | numberInteger i =>
      simp only [stray, decide_eq_true_eq] at h
      simp only [Json.integer?, Option.some.injEq] at hn
      omega
    | numberFloat q =>
      simp only [stray, decide_eq_true_eq] at h
      simp only [Json.integer?] at hn
      split at hn
      · simp only [Option.some.injEq] at hn
        omega
      · cases hn
    | _ => cases h

theorem castFloat_of_integer {q : Rat} (undefined : Nat → Rat → Nat) (hden : q.den = 1)
    (hnum : 0 ≤ q.num) (hlt : q.num < 2 ^ 64) : Json.castFloat undefined 64 q = q.num.toNat := by
  have hq : q = (q.num : Rat) := (Rat.den_eq_one_iff q).mp hden |>.symm
  have floor : q.floor = q.num := by
    rw [hq]
    exact Rat.floor_intCast _
  have nonneg : 0 ≤ q := Rat.num_nonneg.mp hnum
  simp only [Json.castFloat, if_pos nonneg, floor, if_pos (And.intro hnum hlt)]

theorem toNat_toUInt64 {n : Int64} (h : 0 ≤ n.toInt) : (n.toUInt64.toNat : Int) = n.toInt := by
  change 0 ≤ n.toBitVec.toInt at h
  change (n.toBitVec.toNat : Int) = n.toBitVec.toInt
  rw [BitVec.toInt_eq_toNat_cond] at h ⊢
  have := n.toBitVec.isLt
  split at h <;> split <;> omega

/-- A member that converts and is not stray is the integer it converts to. -/
theorem lists_of_converted {initial n : UInt64} {message : Json} {key : String}
    (hstray : stray (message.find? key) = false)
    (h : converted P initial (message.find? key) = some n) : Lists message key n := by
  have chosen : ∀ k : UInt64, (if k = 0 then none else some k) = some n → k = n ∧ n ≠ 0 := by
    intro k hk
    split at hk
    · cases hk
    · rename_i hne
      cases hk
      exact ⟨rfl, hne⟩
  unfold Lists
  unfold converted at h
  cases hfind : message.find? key with
  | none => rw [hfind] at hstray; cases hstray
  | some k =>
    rw [hfind] at h hstray
    cases k with
    | numberUnsigned i =>
      obtain ⟨rfl, hne⟩ := chosen _ h
      exact ⟨hne, rfl⟩
    | numberInteger i =>
      obtain ⟨rfl, hne⟩ := chosen _ h
      simp only [stray, decide_eq_false_iff_not, not_lt] at hstray
      exact ⟨hne, congrArg some (toNat_toUInt64 hstray).symm⟩
    | numberFloat q =>
      obtain ⟨heq, hne⟩ := chosen (UInt64.ofNat (Json.castFloat P.castUndefined 64 q)) h
      simp only [stray, decide_eq_false_iff_not, not_or, not_lt, not_le, not_not] at hstray
      obtain ⟨hden, hnum, hlt⟩ := hstray
      refine ⟨hne, ?_⟩
      rw [castFloat_of_integer _ hden hnum hlt] at heq
      rw [← heq, Option.bind_some, Json.integer?, if_pos hden,
        UInt64.toNat_ofNat_of_lt' (show q.num.toNat < 2 ^ 64 by omega)]
      exact congrArg some (by omega)
    | _ => exact absurd (chosen 0 h).1.symm (chosen 0 h).2

theorem converted_isSome {initial : UInt64} {member : Option Json}
    (h : converted P initial member ≠ none) : ∃ n, converted P initial member = some n :=
  Option.ne_none_iff_exists'.mp h

/-- **The constructor is exact on the values it does not misread.** -/
theorem exact_iff (now : Int) (storage : UInt64) (message : Json) :
    Exact P now storage message ↔ ¬ Misread P storage message := by
  constructor
  · rintro hexact ⟨hembed, hid, hguild, hrecipient, key, hkey, hstray⟩
    obtain ⟨id, hid⟩ := converted_isSome P hid
    obtain ⟨guildId, hguild⟩ := converted_isSome P hguild
    obtain ⟨recipient, hrecipient⟩ := converted_isSome P hrecipient
    obtain ⟨embed, hembed⟩ := (readEmbed_succeeds_iff P message).mpr hembed
    have accepted : ofJson P now storage message =
        .ok { id, guildId, recipient, embed, processedAt := now } :=
      (ofJson_eq_ok_iff P).mpr ⟨hid, hguild, hrecipient, hembed, rfl⟩
    obtain ⟨listsId, listsGuild, listsRecipient, -⟩ := hexact.returns _ accepted
    simp only [idKeys, List.mem_cons, List.not_mem_nil, or_false] at hkey
    rcases hkey with rfl | rfl | rfl
    · exact not_lists_of_stray hstray listsId
    · exact not_lists_of_stray hstray listsGuild
    · exact not_lists_of_stray hstray listsRecipient
  · intro read
    have returns : ∀ m, ofJson P now storage message = .ok m →
        Grammatical message m.id m.guildId m.recipient := by
      intro m hm
      obtain ⟨hid, hguild, hrecipient, hembed, -⟩ := (ofJson_eq_ok_iff P).mp hm
      have accepted := (readEmbed_succeeds_iff P message).mp ⟨_, hembed⟩
      have fine : ∀ key ∈ idKeys, stray (message.find? key) = false := by
        intro key hkey
        by_contra hstray
        rw [Bool.not_eq_false] at hstray
        exact read ⟨accepted, by simp [hid], by simp [hguild], by simp [hrecipient], key, hkey, hstray⟩
      refine ⟨?_, ?_, ?_, ?_⟩
      · exact lists_of_converted P (fine "id" (by simp [idKeys])) hid
      · exact lists_of_converted P (fine "guild_id" (by simp [idKeys])) hguild
      · exact lists_of_converted P (fine "recipient" (by simp [idKeys])) hrecipient
      · unfold embedAccepted at accepted
        split at accepted
        · rename_i embed hfind
          exact ⟨embed, hfind, (Bool.and_eq_true _ _ ▸ accepted).1⟩
        · cases accepted
    refine ⟨returns, fun ungrammatical => ?_⟩
    cases hm : ofJson P now storage message with
    | error e => exact ⟨e, rfl⟩
    | ok m => exact absurd ⟨_, _, _, returns m hm⟩ ungrammatical

end QueuedMessage
