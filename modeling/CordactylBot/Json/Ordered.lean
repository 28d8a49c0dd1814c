import CordactylBot.Json.Value
import Mathlib.Data.List.Nodup

/-!
The order of object members.

An object of the library is a `std::map`: its keys are pairwise different and
iterated in increasing order, at every depth. `Json.Ordered` is that invariant,
`OrderedJson` a value that carries it, and the lemmas here say that assignment
keeps it (`assign_ordered`) and that no key occurs twice among the pairs
`items()` gives (`items_nodup`), so that what is found under a key does not
depend on the position it is listed at (`lookup_eq_some_iff`).
-/

namespace Json

mutual
/-- Every object at any depth lists its members in strictly increasing key order. -/
def Ordered : Json → Prop
  | .array elements => OrderedElements elements
  | .object members => (members.map Prod.fst).Pairwise (· < ·) ∧ OrderedMembers members
  | _ => True

def OrderedElements : List Json → Prop
  | [] => True
  | v :: rest => Ordered v ∧ OrderedElements rest

def OrderedMembers : List (String × Json) → Prop
  | [] => True
  | (_, v) :: rest => Ordered v ∧ OrderedMembers rest
end

theorem orderedElements_iff {elements : List Json} :
    OrderedElements elements ↔ ∀ v ∈ elements, Ordered v := by
  induction elements with
  | nil => simp [OrderedElements]
  | cons v rest ih => simp [OrderedElements, ih]

theorem orderedMembers_iff {members : List (String × Json)} :
    OrderedMembers members ↔ ∀ m ∈ members, Ordered m.2 := by
  induction members with
  | nil => simp [OrderedMembers]
  | cons m rest ih =>
    obtain ⟨k, v⟩ := m
    simp [OrderedMembers, ih]

/-! ### Assignment keeps the order -/

theorem mem_keys_insertMember {key k : String} {value : Json} {members : List (String × Json)}
    (h : k ∈ (insertMember key value members).map Prod.fst) :
    k = key ∨ k ∈ members.map Prod.fst := by
  induction members with
  | nil => simpa [insertMember] using h
  | cons m rest ih =>
    obtain ⟨l, v⟩ := m
    simp only [insertMember] at h
    split at h
    · rename_i hkl
      subst hkl
      simpa using h
    · split at h
      · simpa using h
      · simp only [List.map_cons, List.mem_cons] at h ⊢
        rcases h with h | h
        · exact .inr (.inl h)
        · rcases ih h with h | h
          · exact .inl h
          · exact .inr (.inr h)

theorem pairwise_insertMember (key : String) (value : Json) {members : List (String × Json)}
    (h : (members.map Prod.fst).Pairwise (· < ·)) :
    ((insertMember key value members).map Prod.fst).Pairwise (· < ·) := by
  induction members with
  | nil => simp [insertMember]
  | cons m rest ih =>
    obtain ⟨l, v⟩ := m
    rw [List.map_cons, List.pairwise_cons] at h
    obtain ⟨below, hrest⟩ := h
    simp only [insertMember]
    split
    · rename_i hkl
      subst hkl
      exact List.pairwise_cons.mpr ⟨below, hrest⟩
    · rename_i hkl
      split
      · rename_i hlt
        refine List.pairwise_cons.mpr ⟨fun k hk => ?_, List.pairwise_cons.mpr ⟨below, hrest⟩⟩
        rcases List.mem_cons.mp hk with rfl | hk
        · exact hlt
        · exact hlt.trans (below k hk)
      · rename_i hnlt
        refine List.pairwise_cons.mpr ⟨fun k hk => ?_, ih hrest⟩
        rcases mem_keys_insertMember hk with rfl | hk
        · exact lt_of_le_of_ne (not_lt.mp hnlt) (Ne.symm hkl)
        · exact below k hk

theorem orderedMembers_insertMember {key : String} {value : Json}
    {members : List (String × Json)} (hv : value.Ordered) (h : OrderedMembers members) :
    OrderedMembers (insertMember key value members) := by
  induction members with
  | nil => exact ⟨hv, trivial⟩
  | cons m rest ih =>
    obtain ⟨l, v⟩ := m
    simp only [insertMember]
    split
    · exact ⟨hv, h.2⟩
    · split
      · exact ⟨hv, h⟩
      · exact ⟨h.1, ih h.2⟩

theorem assign_ordered {j value r : Json} {key : String} (hj : j.Ordered) (hv : value.Ordered)
    (h : j.assign key value = .ok r) : r.Ordered := by
  cases j with
  | null =>
    cases h
    exact ⟨by simp, hv, trivial⟩
  | object members =>
    cases h
    exact ⟨pairwise_insertMember key value hj.1, orderedMembers_insertMember hv hj.2⟩
  | _ => cases h

/-! ### What `items()` lists -/

theorem mem_keys_indexed {i : Nat} {k : String} {elements : List Json}
    (h : k ∈ (indexed i elements).map Prod.fst) : ∃ n, i ≤ n ∧ k = toString n := by
  induction elements generalizing i with
  | nil => cases h
  | cons v rest ih =>
    simp only [indexed, List.map_cons, List.mem_cons] at h
    rcases h with rfl | h
    · exact ⟨i, le_rfl, rfl⟩
    · obtain ⟨n, hn, rfl⟩ := ih h
      exact ⟨n, Nat.le_of_succ_le hn, rfl⟩

/-- Different indices are different keys: the digits determine the number. -/
theorem index_key_inj {i n : Nat} (h : toString i = toString n) : i = n := by
  have digits : Nat.toDigits 10 i = Nat.toDigits 10 n := by
    simpa only [Nat.toString_eq_ofList_toDigits, String.toList_ofList] using
      congrArg String.toList h
  rw [← Nat.ofDigitChars_ten_toDigits (n := i), digits, Nat.ofDigitChars_ten_toDigits]

theorem nodup_keys_indexed (i : Nat) (elements : List Json) :
    ((indexed i elements).map Prod.fst).Nodup := by
  induction elements generalizing i with
  | nil => exact List.nodup_nil
  | cons v rest ih =>
    refine List.nodup_cons.mpr ⟨fun h => ?_, ih (i + 1)⟩
    obtain ⟨n, hn, eq⟩ := mem_keys_indexed h
    have := index_key_inj eq
    omega

/-- No key occurs twice in an iteration over `items()`. -/
theorem items_nodup {j : Json} (h : j.Ordered) : (j.items.map Prod.fst).Nodup := by
  cases j with
  | null => exact List.nodup_nil
  | array elements => exact nodup_keys_indexed 0 elements
  | object members => exact h.1.imp fun hlt => ne_of_lt hlt
  | _ => simp [items]

theorem items_ordered {j : Json} (h : j.Ordered) : ∀ m ∈ j.items, m.2.Ordered := by
  intro m hm
  cases j with
  | null => cases hm
  | array elements => exact orderedElements_iff.mp h _ (mem_indexed hm)
  | object members => exact orderedMembers_iff.mp h.2 m hm
  | _ =>
    simp only [items, List.mem_singleton] at hm
    subst hm
    exact h

/-- Among pairs with different keys, the value found under a key is the one listed. -/
theorem lookup_eq_some_iff {members : List (String × Json)}
    (h : (members.map Prod.fst).Nodup) {key : String} {value : Json} :
    members.lookup key = some value ↔ (key, value) ∈ members := by
  induction members with
  | nil => simp
  | cons m rest ih =>
    obtain ⟨l, v⟩ := m
    rw [List.map_cons, List.nodup_cons] at h
    obtain ⟨fresh, hrest⟩ := h
    by_cases hk : key = l
    · subst hk
      have : (key, value) ∉ rest := fun hm => fresh (List.mem_map.mpr ⟨_, hm, rfl⟩)
      simp [this, eq_comm]
    · simp [List.lookup_cons, beq_false_of_ne hk, ih hrest, hk]

theorem lookup_eq_none_of_notMem {members : List (String × Json)} {key : String}
    (h : key ∉ members.map Prod.fst) : members.lookup key = none := by
  cases hl : members.lookup key with
  | none => rfl
  | some value =>
    exfalso
    apply h
    induction members with
    | nil => cases hl
    | cons m rest ih =>
      obtain ⟨l, v⟩ := m
      by_cases hk : key = l
      · simp [hk]
      · rw [List.lookup_cons, beq_false_of_ne hk] at hl
        exact List.mem_cons_of_mem _ (ih (fun hm => h (List.mem_cons_of_mem _ hm)) hl)

theorem find?_ordered {j value : Json} {key : String} (h : j.Ordered)
    (hf : j.find? key = some value) : value.Ordered := by
  cases j with
  | object members =>
    have hm := (lookup_eq_some_iff (h.1.imp fun hlt => ne_of_lt hlt)).mp hf
    exact orderedMembers_iff.mp h.2 _ hm
  | _ => cases hf

end Json

/-- A JSON value as the library can hold it: its objects are ordered maps. -/
@[ext] structure OrderedJson where
  value : Json
  ordered : value.Ordered

namespace OrderedJson

/-- A default-constructed value. -/
def null : OrderedJson := ⟨.null, trivial⟩

instance : Inhabited OrderedJson := ⟨null⟩

instance : DecidableEq OrderedJson := fun _ _ => decidable_of_iff _ OrderedJson.ext_iff.symm

end OrderedJson
