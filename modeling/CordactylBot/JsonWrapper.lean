import CordactylBot.Json.Ordered
import Mathlib.Data.List.Induction

/-!
Deep merging (`json_wrapper.cpp`).

`deep_merge` goes through the items of its source and decides for each by the kinds
of what target and source hold under the key: two objects are merged, two arrays
concatenated, anything else is overwritten or added. It updates its target in place
through `operator[]`, which throws on a target that is neither null nor an object.

* `deepMerge_eq` — the definition is the loop of the source over `items()`.
* `deepMerge_ok` — on a target that is null or an object nothing throws, and what
  comes out is null or an object again.
* `find?_merged` — what the result holds under each key.
* `follow_mergeAll` — at a path where every source of a series of merges holds an
  array or nothing, the result holds the concatenation.
-/

namespace Json

/-! ### The source -/

/-- The body of the loop, for one item; `recurse` is `deep_merge` of the item's value
into its argument. -/
def mergeItem (recurse : Json → Except Exception Json) (target : Json) (key : String)
    (value : Json) : Except Exception Json :=
  if target.contains key then do
    let old ← target.subscript key
    if old.isObject && value.isObject then
      target.assign key (← recurse old)
    else if old.isArray && value.isArray then
      target.assign key (← old.insertAtEnd value)
    else
      target.assign key value
  else
    target.assign key value

mutual
/-- `deep_merge`. A scalar is one item, under the empty key, and nothing to recurse into. -/
def deepMerge (target : Json) : Json → Except Exception Json
  | .null => .ok target
  | .object members => mergeMembers target members
  | .array elements => mergeElements target 0 elements
  | .boolean b => mergeItem .ok target "" (.boolean b)
  | .numberInteger n => mergeItem .ok target "" (.numberInteger n)
  | .numberUnsigned n => mergeItem .ok target "" (.numberUnsigned n)
  | .numberFloat q => mergeItem .ok target "" (.numberFloat q)
  | .string s => mergeItem .ok target "" (.string s)

def mergeMembers (target : Json) : List (String × Json) → Except Exception Json
  | [] => .ok target
  | (key, value) :: rest =>
      match mergeItem (fun old => deepMerge old value) target key value with
      | .ok target => mergeMembers target rest
      | .error e => .error e

def mergeElements (target : Json) (i : Nat) : List Json → Except Exception Json
  | [] => .ok target
  | value :: rest =>
      match mergeItem (fun old => deepMerge old value) target (toString i) value with
      | .ok target => mergeElements target (i + 1) rest
      | .error e => .error e
end

/-- The loop over items, each merged by `deep_merge` itself. -/
def mergeItems (target : Json) (items : List (String × Json)) : Except Exception Json :=
  items.foldlM (fun target item =>
    mergeItem (fun old => deepMerge old item.2) target item.1 item.2) target

theorem mergeMembers_eq (target : Json) (members : List (String × Json)) :
    mergeMembers target members = mergeItems target members := by
  induction members generalizing target with
  | nil => rfl
  | cons m rest ih =>
    rw [mergeMembers, mergeItems, List.foldlM_cons]
    cases mergeItem (fun old => deepMerge old m.2) target m.1 m.2 with
    | ok target => exact ih target
    | error e => rfl

theorem mergeElements_eq (target : Json) (i : Nat) (elements : List Json) :
    mergeElements target i elements = mergeItems target (indexed i elements) := by
  induction elements generalizing target i with
  | nil => rfl
  | cons v rest ih =>
    rw [mergeElements, indexed, mergeItems, List.foldlM_cons]
    cases mergeItem (fun old => deepMerge old v) target (toString i) v with
    | ok target => exact ih target (i + 1)
    | error e => rfl

/-- The recursion is never entered for a value that is no object. -/
theorem mergeItem_of_scalar {recurse recurse' : Json → Except Exception Json} {value : Json}
    (h : value.isObject = false) (target : Json) (key : String) :
    mergeItem recurse target key value = mergeItem recurse' target key value := by
  simp only [mergeItem, h, Bool.and_false, Bool.false_eq_true, if_false]

/-- **`deepMerge` is the loop over `items()`.** -/
theorem deepMerge_eq (target source : Json) :
    deepMerge target source = mergeItems target source.items := by
  have scalar : ∀ value : Json, value.isObject = false →
      mergeItem .ok target "" value = mergeItems target [("", value)] := by
    intro value h
    rw [mergeItems, List.foldlM_cons, mergeItem_of_scalar h]
    cases mergeItem (fun old => deepMerge old value) target "" value <;> rfl
  cases source with
  | null => rfl
  | object members => exact mergeMembers_eq target members
  | array elements => exact mergeElements_eq target 0 elements
  | _ => exact scalar _ rfl

/-! ### Nothing throws on null and objects -/

/-- A value `operator[]` can add a key to. -/
def Mergeable : Json → Prop
  | .null | .object _ => True
  | _ => False

/-- What an assignment leaves of a mergeable value. -/
def put (j : Json) (key : String) (value : Json) : Json :=
  match j with
  | .object members => .object (insertMember key value members)
  | _ => .object [(key, value)]

theorem assign_eq_put {j : Json} (h : j.Mergeable) (key : String) (value : Json) :
    j.assign key value = .ok (j.put key value) := by
  cases j with
  | null => rfl
  | object members => rfl
  | _ => cases h

theorem mergeable_put (j : Json) (key : String) (value : Json) : (j.put key value).Mergeable := by
  cases j <;> trivial

theorem find?_put {j : Json} (h : j.Mergeable) (key k : String) (value : Json) :
    (j.put key value).find? k = if k = key then some value else j.find? k := by
  cases j with
  | null =>
    by_cases hk : k = key
    · simp [put, hk]
    · simp [put, hk, List.lookup_cons, beq_false_of_ne hk]
  | object members => exact lookup_insertMember key k value members
  | _ => cases h

theorem put_ordered {j value : Json} {key : String} (hm : j.Mergeable) (hj : j.Ordered)
    (hv : value.Ordered) : (j.put key value).Ordered :=
  assign_ordered hj hv (assign_eq_put hm key value)

theorem mergeable_of_isObject {j : Json} (h : j.isObject = true) : j.Mergeable := by
  obtain ⟨members, rfl⟩ := isObject_iff.mp h
  trivial

/-- The value of a merge that does not throw. -/
def merged (target source : Json) : Json :=
  match deepMerge target source with
  | .ok result => result
  | .error _ => target

/-- What a merge leaves under a key: `old` is what the target has there, `value` what
the source has. -/
def mergedValue (old : Option Json) (value : Json) : Json :=
  match old, value with
  | some (.object members), .object new => merged (.object members) (.object new)
  | some (.array xs), .array ys => .array (xs ++ ys)
  | _, value => value

theorem mergedValue_of_objects {old value : Json} (ho : old.isObject = true)
    (hv : value.isObject = true) : mergedValue (some old) value = merged old value := by
  obtain ⟨members, rfl⟩ := isObject_iff.mp ho
  obtain ⟨new, rfl⟩ := isObject_iff.mp hv
  rfl

/-- One item, when the recursion into its value does not throw. -/
theorem mergeItem_eq {target value : Json} (ht : target.Mergeable) (key : String)
    (recurse : value.isObject = true → ∀ old, old.isObject = true →
      deepMerge old value = .ok (merged old value)) :
    mergeItem (fun old => deepMerge old value) target key value =
      .ok (target.put key (mergedValue (target.find? key) value)) := by
  rw [← assign_eq_put ht, mergeItem]
  cases hold : target.find? key with
  | none =>
    rw [if_neg]
    · cases value <;> rfl
    · simp [contains, hold]
  | some old =>
    rw [if_pos (contains_iff.mpr ⟨old, hold⟩), subscript_of_find? hold]
    simp only [bind, Except.bind]
    by_cases hobj : (old.isObject && value.isObject) = true
    · rw [if_pos hobj]
      rw [Bool.and_eq_true] at hobj
      simp only [recurse hobj.2 old hobj.1, mergedValue_of_objects hobj.1 hobj.2]
    · rw [if_neg hobj]
      by_cases harr : (old.isArray && value.isArray) = true
      · rw [if_pos harr]
        rw [Bool.and_eq_true] at harr
        obtain ⟨xs, rfl⟩ := isArray_iff.mp harr.1
        obtain ⟨ys, rfl⟩ := isArray_iff.mp harr.2
        rfl
      · rw [if_neg harr]
        cases old <;> cases value <;> first | rfl | simp [isObject, isArray] at hobj harr

/-- One round of the merge, as a pure function. -/
def putMerged (target : Json) (item : String × Json) : Json :=
  target.put item.1 (mergedValue (target.find? item.1) item.2)

theorem mergeItems_eq {items : List (String × Json)} {target : Json} (ht : target.Mergeable)
    (recurse : ∀ item ∈ items, item.2.isObject = true → ∀ old, old.isObject = true →
      deepMerge old item.2 = .ok (merged old item.2)) :
    mergeItems target items = .ok (items.foldl putMerged target) := by
  induction items generalizing target with
  | nil => rfl
  | cons item rest ih =>
    rw [mergeItems, List.foldlM_cons,
      mergeItem_eq ht item.1 (recurse item List.mem_cons_self)]
    exact ih (mergeable_put _ _ _) fun item hitem => recurse item (List.mem_cons_of_mem _ hitem)

/-- **Merging into null or an object does not throw.** -/
theorem deepMerge_ok (source : Json) :
    ∀ target, target.Mergeable → deepMerge target source = .ok (merged target source) := by
  induction source using Json.induction with
  | step source ih =>
    intro target ht
    have total : deepMerge target source = .ok (source.items.foldl putMerged target) := by
      rw [deepMerge_eq]
      apply mergeItems_eq ht
      intro item hitem hobj old hold
      rcases mem_items hitem with hpart | ⟨hself, hscalar⟩
      · exact ih item.2 hpart old (mergeable_of_isObject hold)
      · rw [hself, hscalar] at hobj
        cases hobj
    rw [merged, total]

/-- The merge as a fold over the items of its source. -/
theorem merged_eq_foldl {target source : Json} (ht : target.Mergeable) :
    merged target source = source.items.foldl putMerged target := by
  have total := deepMerge_ok source target ht
  rw [deepMerge_eq, mergeItems_eq ht] at total
  · exact (Except.ok.inj total).symm
  · intro item _ _ old hold
    exact deepMerge_ok item.2 old (mergeable_of_isObject hold)

/-! ### What the result is -/

theorem foldl_putMerged_mergeable {items : List (String × Json)} :
    ∀ {target : Json}, target.Mergeable → (items.foldl putMerged target).Mergeable := by
  induction items with
  | nil => exact fun h => h
  | cons item rest ih => exact fun _ => ih (mergeable_put _ _ _)

theorem merged_mergeable {target source : Json} (ht : target.Mergeable) :
    (merged target source).Mergeable := by
  rw [merged_eq_foldl ht]
  exact foldl_putMerged_mergeable ht

/-- A merge into an object is an object. -/
theorem merged_isObject {target source : Json} (ht : target.isObject = true) :
    (merged target source).isObject = true := by
  have keeps : ∀ (items : List (String × Json)) (target : Json), target.isObject = true →
      (items.foldl putMerged target).isObject = true := by
    intro items
    induction items with
    | nil => exact fun _ h => h
    | cons item rest ih =>
      intro target _
      apply ih
      cases target <;> rfl
  rw [merged_eq_foldl (mergeable_of_isObject ht)]
  exact keeps source.items target ht

/-- A merge of what two sides hold under a key, if they do. -/
def mergedUnder (old value : Option Json) : Option Json :=
  match value with
  | none => old
  | some value => some (mergedValue old value)

/-- With different keys, each item acts on its own key of the original target. -/
theorem find?_foldl_putMerged {items : List (String × Json)} (key : String) :
    ∀ {target : Json}, target.Mergeable → (items.map Prod.fst).Nodup →
      (items.foldl putMerged target).find? key =
        mergedUnder (target.find? key) (items.lookup key) := by
  induction items with
  | nil => exact fun _ _ => rfl
  | cons item rest ih =>
    intro target ht hnodup
    obtain ⟨k, value⟩ := item
    rw [List.map_cons, List.nodup_cons] at hnodup
    rw [List.foldl_cons, putMerged, ih (mergeable_put _ _ _) hnodup.2, find?_put ht]
    by_cases hk : key = k
    · subst hk
      have absent : rest.lookup key = none := lookup_eq_none_of_notMem hnodup.1
      rw [if_pos rfl, absent, List.lookup_cons_self]
      rfl
    · rw [if_neg hk, List.lookup_cons, beq_false_of_ne hk]

/-- **What a merge leaves under each key.** -/
theorem find?_merged {target source : Json} (ht : target.Mergeable) (hs : source.Ordered)
    (key : String) :
    (merged target source).find? key = mergedUnder (target.find? key) (source.itemAt key) := by
  rw [merged_eq_foldl ht, find?_foldl_putMerged key ht (items_nodup hs), itemAt]

theorem mergedValue_ordered {old : Option Json} {value : Json}
    (hold : ∀ o, old = some o → o.Ordered) (hv : value.Ordered)
    (recurse : value.isObject = true → ∀ o, o.Mergeable → o.Ordered →
      (merged o value).Ordered) : (mergedValue old value).Ordered := by
  unfold mergedValue
  split
  · exact recurse rfl _ trivial (hold _ rfl)
  · apply orderedElements_iff.mpr
    intro v hmem
    rcases List.mem_append.mp hmem with hmem | hmem
    · exact orderedElements_iff.mp (hold _ rfl) v hmem
    · exact orderedElements_iff.mp hv v hmem
  · exact hv

/-- A merge of ordered values is ordered. -/
theorem merged_ordered (source : Json) :
    source.Ordered → ∀ target, target.Mergeable → target.Ordered →
      (merged target source).Ordered := by
  induction source using Json.induction with
  | step source ih =>
    intro hs target ht hto
    have keeps : ∀ items : List (String × Json),
        (∀ item ∈ items, item.2.Ordered ∧ (item.2.isObject = true → ∀ o, o.Mergeable →
          o.Ordered → (merged o item.2).Ordered)) →
        ∀ target : Json, target.Mergeable → target.Ordered →
          (items.foldl putMerged target).Ordered := by
      intro items
      induction items with
      | nil => exact fun _ _ _ h => h
      | cons item rest ihRest =>
        intro hitems target ht hto
        obtain ⟨hv, hrec⟩ := hitems item List.mem_cons_self
        apply ihRest (fun i hi => hitems i (List.mem_cons_of_mem _ hi)) _ (mergeable_put _ _ _)
        exact put_ordered ht hto
          (mergedValue_ordered (fun o ho => find?_ordered hto ho) hv hrec)
    rw [merged_eq_foldl ht]
    apply keeps _ _ target ht hto
    intro item hitem
    refine ⟨items_ordered hs item hitem, fun hobj o ho hoo => ?_⟩
    rcases mem_items hitem with hpart | ⟨hself, hscalar⟩
    · exact ih item.2 hpart (items_ordered hs item hitem) o ho hoo
    · rw [hself, hscalar] at hobj
      cases hobj

/-! ### Paths -/

/-- Follow keys through objects. -/
def follow : List String → Option Json → Option Json
  | [], j => j
  | key :: path, j => follow path (j.bind fun j => j.find? key)

@[simp] theorem follow_none (path : List String) : follow path none = none := by
  induction path with
  | nil => rfl
  | cons key path ih => exact ih

/-- The path leads to an array or nowhere, through objects. -/
def ArrayAlong : List String → Option Json → Prop
  | _, none => True
  | [], some j => j.isArray = true
  | key :: path, some j => j.isObject = true ∧ ArrayAlong path (j.find? key)

/-- Concatenation of what two places hold that hold an array or nothing. -/
def concatenated (a b : Option Json) : Option Json :=
  match a, b with
  | some (.array xs), some (.array ys) => some (.array (xs ++ ys))
  | none, b => b
  | a, _ => a

/-- Along a path where both sides hold an array or nothing, a merge concatenates. -/
theorem follow_mergedUnder {path : List String} :
    ∀ {old value : Option Json}, ArrayAlong path old → ArrayAlong path value →
      (∀ v, value = some v → v.Ordered) →
      ArrayAlong path (mergedUnder old value) ∧
        follow path (mergedUnder old value) = concatenated (follow path old) (follow path value) := by
  induction path with
  | nil =>
    intro old value hold hvalue _
    cases value with
    | none => exact ⟨hold, by cases old <;> simp [mergedUnder, follow, concatenated]⟩
    | some v =>
      obtain ⟨ys, rfl⟩ := isArray_iff.mp hvalue
      cases old with
      | none => exact ⟨rfl, rfl⟩
      | some o =>
        obtain ⟨xs, rfl⟩ := isArray_iff.mp hold
        exact ⟨rfl, rfl⟩
  | cons key path ih =>
    intro old value hold hvalue hordered
    cases value with
    | none =>
      refine ⟨hold, ?_⟩
      rw [mergedUnder, follow_none]
      cases follow (key :: path) old with
      | none => rfl
      | some j => cases j <;> rfl
    | some v =>
      obtain ⟨hv, hvrest⟩ := hvalue
      cases old with
      | none =>
        have hnew : mergedUnder none (some v) = some v := by
          cases v <;> rfl
        rw [hnew, follow_none]
        exact ⟨⟨hv, hvrest⟩, rfl⟩
      | some o =>
        obtain ⟨ho, horest⟩ := hold
        have hnew : mergedUnder (some o) (some v) = some (merged o v) := by
          rw [mergedUnder, mergedValue_of_objects ho hv]
        have hitem : v.itemAt key = v.find? key := by
          obtain ⟨members, rfl⟩ := isObject_iff.mp hv
          rfl
        have hfind : (merged o v).find? key = mergedUnder (o.find? key) (v.find? key) := by
          rw [find?_merged (mergeable_of_isObject ho) (hordered v rfl), hitem]
        obtain ⟨halong, hfollow⟩ := ih horest hvrest fun u hu => find?_ordered (hordered v rfl) hu
        rw [hnew]
        constructor
        · exact ⟨merged_isObject ho, hfind ▸ halong⟩
        · simp only [follow, Option.bind_some, hfind]
          exact hfollow

/-- The elements at a place that holds an array or nothing. -/
def elementsOf : Option Json → List Json
  | some (.array elements) => elements
  | _ => []

theorem arrayAlong_follow {path : List String} :
    ∀ {j : Option Json}, ArrayAlong path j → ArrayAlong [] (follow path j) := by
  induction path with
  | nil => exact fun h => h
  | cons key path ih =>
    intro j h
    cases j with
    | none =>
      rw [follow_none]
      trivial
    | some j => exact ih h.2

theorem eq_array_of_arrayAlong {j : Option Json} (h : ArrayAlong [] j) (hsome : j ≠ none) :
    j = some (.array (elementsOf j)) := by
  cases j with
  | none => exact absurd rfl hsome
  | some j =>
    obtain ⟨elements, rfl⟩ := isArray_iff.mp h
    rfl

theorem concatenated_none {a b : Option Json} :
    concatenated a b = none ↔ a = none ∧ b = none := by
  constructor
  · intro h
    unfold concatenated at h
    split at h
    · cases h
    · exact ⟨rfl, h⟩
    · rename_i nonempty _
      exact absurd h nonempty
  · rintro ⟨rfl, rfl⟩
    rfl

theorem elementsOf_concatenated {a b : Option Json} (ha : ArrayAlong [] a) (hb : ArrayAlong [] b) :
    elementsOf (concatenated a b) = elementsOf a ++ elementsOf b := by
  cases a with
  | none => rfl
  | some a =>
    obtain ⟨xs, rfl⟩ := isArray_iff.mp ha
    cases b with
    | none => exact (List.append_nil xs).symm
    | some b =>
      obtain ⟨ys, rfl⟩ := isArray_iff.mp hb
      rfl

/-! ### Several merges -/

/-- The sources merged one after the other into null. -/
def mergeAll (sources : List Json) : Json :=
  sources.foldl merged .null

theorem mergeAll_concat (sources : List Json) (source : Json) :
    mergeAll (sources ++ [source]) = merged (mergeAll sources) source := by
  rw [mergeAll, List.foldl_append]
  rfl

theorem mergeAll_mergeable (sources : List Json) : (mergeAll sources).Mergeable := by
  induction sources using List.reverseRecOn with
  | nil => trivial
  | append_singleton sources source ih =>
    rw [mergeAll_concat]
    exact merged_mergeable ih

/-- The merges one after the other, as the source makes them, throw nothing. -/
theorem foldlM_deepMerge (sources : List Json) :
    sources.foldlM deepMerge .null = .ok (mergeAll sources) := by
  have total : ∀ (sources : List Json) (target : Json), target.Mergeable →
      sources.foldlM deepMerge target = .ok (sources.foldl merged target) := by
    intro sources
    induction sources with
    | nil => exact fun _ _ => rfl
    | cons source rest ih =>
      intro target ht
      rw [List.foldlM_cons, deepMerge_ok source target ht]
      exact ih _ (merged_mergeable ht)
  exact total sources .null trivial

/-- **Arrays are concatenated in merge order.** Where each source has an array or
nothing at a path, the merge of all of them has nothing if none of them has
anything, and their concatenation otherwise. -/
theorem follow_mergeAll {sources : List Json} {key : String} {path : List String}
    (ordered : ∀ source ∈ sources, source.Ordered)
    (along : ∀ source ∈ sources, ArrayAlong path (source.itemAt key)) :
    ArrayAlong path ((mergeAll sources).find? key) ∧
      (follow path ((mergeAll sources).find? key) = none ↔
        ∀ source ∈ sources, follow path (source.itemAt key) = none) ∧
      elementsOf (follow path ((mergeAll sources).find? key)) =
        sources.flatMap fun source => elementsOf (follow path (source.itemAt key)) := by
  induction sources using List.reverseRecOn with
  | nil => simp [mergeAll, ArrayAlong, elementsOf]
  | append_singleton sources source ih =>
    have inOlder : ∀ s ∈ sources, s ∈ sources ++ [source] := fun s hs => List.mem_append_left _ hs
    have inNew : source ∈ sources ++ [source] := List.mem_append_right _ List.mem_cons_self
    obtain ⟨halong, hnone, helements⟩ :=
      ih (fun s hs => ordered s (inOlder s hs)) fun s hs => along s (inOlder s hs)
    have itemOrdered : ∀ v, source.itemAt key = some v → v.Ordered := by
      intro v hv
      have hmem := (lookup_eq_some_iff (items_nodup (ordered source inNew))).mp hv
      exact items_ordered (ordered source inNew) _ hmem
    obtain ⟨hboth, hfollow⟩ := follow_mergedUnder halong (along source inNew) itemOrdered
    rw [mergeAll_concat, find?_merged (mergeAll_mergeable sources) (ordered source inNew)]
    refine ⟨hboth, ?_, ?_⟩
    · rw [hfollow, concatenated_none, hnone]
      simp [or_imp, forall_and]
    · rw [hfollow, elementsOf_concatenated (arrayAlong_follow halong)
        (arrayAlong_follow (along source inNew)), helements]
      simp

end Json
