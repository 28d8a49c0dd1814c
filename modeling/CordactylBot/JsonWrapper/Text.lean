import CordactylBot.JsonWrapper
import CordactylBot.Json.Serializer

/-!
Merges and texts.

A merge takes every scalar of its result from one of the two sides, so what holds of the
scalars of both holds of the result's (`Hereditary.merged`). And writing a value down and
reading it back goes along with merging: it makes no difference whether two values are merged
before or after (`reread_merged`).
-/

namespace Json

/-- A property a value has because its parts have it. -/
structure Hereditary (Q : Json → Prop) : Prop where
  null : Q .null
  array : ∀ {elements}, Q (.array elements) ↔ ∀ v ∈ elements, Q v
  object : ∀ {members}, Q (.object members) ↔ ∀ m ∈ members, Q m.2

theorem printsElements_iff {F : FloatText} {elements : List Json} :
    PrintsElements F elements ↔ ∀ v ∈ elements, Prints F v := by
  induction elements with
  | nil => simp [PrintsElements]
  | cons v rest ih => simp [PrintsElements, ih]

theorem printsMembers_iff {F : FloatText} {members : List (String × Json)} :
    PrintsMembers F members ↔ ∀ m ∈ members, Prints F m.2 := by
  induction members with
  | nil => simp [PrintsMembers]
  | cons m rest ih => simp [PrintsMembers, ih]

theorem hereditary_prints (F : FloatText) : Hereditary (Prints F) where
  null := trivial
  array := printsElements_iff
  object := printsMembers_iff

theorem mem_insertMember {m : String × Json} {key : String} {value : Json}
    {members : List (String × Json)} (h : m ∈ insertMember key value members) :
    m = (key, value) ∨ m ∈ members := by
  induction members with
  | nil => exact .inl (List.mem_singleton.mp h)
  | cons first rest ih =>
    obtain ⟨k, v⟩ := first
    unfold insertMember at h
    split at h
    · exact (List.mem_cons.mp h).imp_right (List.mem_cons_of_mem _)
    · split at h
      · exact List.mem_cons.mp h
      · rcases List.mem_cons.mp h with rfl | h
        · exact .inr List.mem_cons_self
        · exact (ih h).imp_right (List.mem_cons_of_mem _)

/-! ### What a merge keeps -/

section Hereditary

variable {Q : Json → Prop}

theorem Hereditary.put (h : Hereditary Q) {j value : Json} {key : String} (hj : Q j)
    (hv : Q value) : Q (j.put key value) := by
  have single : Q (.object [(key, value)]) := by
    apply h.object.mpr
    intro m hm
    rw [List.mem_singleton.mp hm]
    exact hv
  cases j with
  | object members =>
    apply h.object.mpr
    intro m hm
    rcases mem_insertMember hm with rfl | hm
    · exact hv
    · exact h.object.mp hj m hm
  | _ => exact single

theorem Hereditary.find? (h : Hereditary Q) {j value : Json} {key : String} (hj : Q j)
    (hfind : j.find? key = some value) : Q value := by
  cases j with
  | object members =>
    obtain ⟨before, after, rfl, -⟩ := List.lookup_eq_some_iff.mp hfind
    exact h.object.mp hj (key, value) (by simp)
  | _ => cases hfind

theorem Hereditary.items (h : Hereditary Q) {j : Json} (hj : Q j) : ∀ m ∈ j.items, Q m.2 := by
  intro m hm
  rcases mem_items hm with hpart | ⟨hself, -⟩
  · cases j with
    | array elements => exact h.array.mp hj _ hpart
    | object members =>
      obtain ⟨m', hm', heq⟩ := List.mem_map.mp hpart
      exact heq ▸ h.object.mp hj m' hm'
    | _ => cases hpart
  · exact hself ▸ hj

theorem Hereditary.mergedValue (h : Hereditary Q) {old : Option Json} {value : Json}
    (hold : ∀ o, old = some o → Q o) (hv : Q value)
    (recurse : value.isObject = true → ∀ o, o.Mergeable → Q o → Q (merged o value)) :
    Q (mergedValue old value) := by
  unfold Json.mergedValue
  split
  · exact recurse rfl _ trivial (hold _ rfl)
  · apply h.array.mpr
    intro v hmem
    rcases List.mem_append.mp hmem with hmem | hmem
    · exact h.array.mp (hold _ rfl) v hmem
    · exact h.array.mp hv v hmem
  · exact hv

/-- What both sides of a merge have, its result has. -/
theorem Hereditary.merged (h : Hereditary Q) (source : Json) :
    Q source → ∀ target, target.Mergeable → Q target → Q (merged target source) := by
  induction source using Json.induction with
  | step source ih =>
    intro hs target ht hto
    have keeps : ∀ items : List (String × Json),
        (∀ item ∈ items, Q item.2 ∧ (item.2.isObject = true → ∀ o, o.Mergeable →
          Q o → Q (Json.merged o item.2))) →
        ∀ target : Json, Q target → Q (items.foldl putMerged target) := by
      intro items
      induction items with
      | nil => exact fun _ _ h => h
      | cons item rest ihRest =>
        intro hitems target hto
        obtain ⟨hv, hrec⟩ := hitems item List.mem_cons_self
        apply ihRest fun i hi => hitems i (List.mem_cons_of_mem _ hi)
        exact h.put hto (h.mergedValue (fun o ho => h.find? hto ho) hv hrec)
    rw [merged_eq_foldl ht]
    apply keeps _ _ target hto
    intro item hitem
    refine ⟨h.items hs item hitem, fun hobj o ho hoo => ?_⟩
    rcases mem_items hitem with hpart | ⟨hself, hscalar⟩
    · exact ih item.2 hpart (h.items hs item hitem) o ho hoo
    · rw [hself, hscalar] at hobj
      cases hobj

theorem Hereditary.mergeAll (h : Hereditary Q) {sources : List Json}
    (hsources : ∀ source ∈ sources, Q source) : Q (mergeAll sources) := by
  induction sources using List.reverseRecOn with
  | nil => exact h.null
  | append_singleton sources source ih =>
    rw [mergeAll_concat]
    refine h.merged source (hsources source (by simp)) _ (mergeAll_mergeable sources) (ih ?_)
    exact fun s hs => hsources s (List.mem_append_left _ hs)

end Hereditary

/-! ### Reading back a merge -/

theorem rereadElements_eq (elements : List Json) : rereadElements elements = elements.map reread := by
  induction elements with
  | nil => rfl
  | cons v rest ih => rw [rereadElements, ih, List.map_cons]

theorem rereadMembers_eq (members : List (String × Json)) :
    rereadMembers members = members.map fun m => (m.1, reread m.2) := by
  induction members with
  | nil => rfl
  | cons m rest ih => rw [rereadMembers, ih, List.map_cons]

@[simp] theorem isObject_reread (j : Json) : j.reread.isObject = j.isObject := by
  cases j with
  | numberInteger n =>
    rw [reread]
    split <;> rfl
  | _ => rfl

@[simp] theorem isArray_reread (j : Json) : j.reread.isArray = j.isArray := by
  cases j with
  | numberInteger n =>
    rw [reread]
    split <;> rfl
  | _ => rfl

theorem items_reread (j : Json) : j.reread.items = j.items.map fun m => (m.1, reread m.2) := by
  have indexed : ∀ (elements : List Json) (i : Nat),
      Json.indexed i (elements.map reread) =
        (Json.indexed i elements).map fun m => (m.1, reread m.2) := by
    intro elements
    induction elements with
    | nil => exact fun _ => rfl
    | cons v rest ih => exact fun i => by simp [Json.indexed, ih]
  cases j with
  | array elements =>
    rw [reread, rereadElements_eq]
    exact indexed elements 0
  | object members =>
    rw [reread, rereadMembers_eq]
    rfl
  | numberInteger n =>
    by_cases hn : 0 ≤ n.toInt
    all_goals simp [reread, items, hn]
  | _ => rfl

theorem mergeable_reread {j : Json} (h : j.Mergeable) : j.reread.Mergeable := by
  cases j with
  | null | object => trivial
  | _ => cases h

theorem lookup_map_reread (key : String) (members : List (String × Json)) :
    (members.map fun m => (m.1, reread m.2)).lookup key = (members.lookup key).map reread := by
  induction members with
  | nil => rfl
  | cons m rest ih =>
    rw [List.map_cons, List.lookup_cons, List.lookup_cons]
    cases key == m.1
    · exact ih
    · rfl

theorem find?_reread {j : Json} (h : j.Mergeable) (key : String) :
    j.reread.find? key = (j.find? key).map reread := by
  cases j with
  | null => rfl
  | object members =>
    rw [reread, rereadMembers_eq]
    exact lookup_map_reread key members
  | _ => cases h

theorem insertMember_reread (key : String) (value : Json) (members : List (String × Json)) :
    (insertMember key value members).map (fun m => (m.1, reread m.2)) =
      insertMember key value.reread (members.map fun m => (m.1, reread m.2)) := by
  induction members with
  | nil => rfl
  | cons m rest ih =>
    obtain ⟨k, v⟩ := m
    simp only [insertMember, List.map_cons]
    split
    · rfl
    · split
      · rfl
      · rw [List.map_cons, ih]

theorem put_reread {j : Json} (h : j.Mergeable) (key : String) (value : Json) :
    (j.put key value).reread = j.reread.put key value.reread := by
  cases j with
  | null => rfl
  | object members =>
    simp only [put, reread, rereadMembers_eq, insertMember_reread]
  | _ => cases h

theorem mergedValue_other {old value : Json} (hobject : ¬ (old.isObject && value.isObject) = true)
    (harray : ¬ (old.isArray && value.isArray) = true) : mergedValue (some old) value = value := by
  cases old <;> cases value <;> first | rfl | simp [isObject, isArray] at hobject harray

theorem mergedValue_reread {old : Option Json} {value : Json}
    (recurse : value.isObject = true → ∀ o : Json, o.Mergeable →
      (merged o value).reread = merged o.reread value.reread) :
    (mergedValue old value).reread = mergedValue (old.map reread) value.reread := by
  cases old with
  | none => rfl
  | some old =>
    rw [Option.map_some]
    by_cases hobject : (old.isObject && value.isObject) = true
    · obtain ⟨ho, hv⟩ := Bool.and_eq_true_iff.mp hobject
      rw [mergedValue_of_objects ho hv, recurse hv old (mergeable_of_isObject ho),
        mergedValue_of_objects ((isObject_reread old).trans ho) ((isObject_reread value).trans hv)]
    · by_cases harray : (old.isArray && value.isArray) = true
      · obtain ⟨ho, hv⟩ := Bool.and_eq_true_iff.mp harray
        obtain ⟨xs, rfl⟩ := isArray_iff.mp ho
        obtain ⟨ys, rfl⟩ := isArray_iff.mp hv
        simp only [mergedValue, reread, rereadElements_eq, List.map_append]
      · rw [mergedValue_other hobject harray, mergedValue_other]
        · simpa using hobject
        · simpa using harray

/-- **Reading back goes along with merging.** -/
theorem reread_merged (source : Json) :
    ∀ target, target.Mergeable →
      (merged target source).reread = merged target.reread source.reread := by
  induction source using Json.induction with
  | step source ih =>
    intro target ht
    have along : ∀ items : List (String × Json),
        (∀ item ∈ items, item.2.isObject = true → ∀ o : Json, o.Mergeable →
          (merged o item.2).reread = merged o.reread item.2.reread) →
        ∀ target : Json, target.Mergeable → (items.foldl putMerged target).reread =
          (items.map fun m => (m.1, reread m.2)).foldl putMerged target.reread := by
      intro items
      induction items with
      | nil => exact fun _ _ _ => rfl
      | cons item rest ihRest =>
        intro hitems target ht
        have hput : (putMerged target item).reread =
            putMerged target.reread (item.1, item.2.reread) := by
          rw [putMerged, put_reread ht, mergedValue_reread (hitems item List.mem_cons_self),
            putMerged, find?_reread ht]
        rw [List.foldl_cons, List.map_cons, List.foldl_cons, ← hput]
        exact ihRest (fun i hi => hitems i (List.mem_cons_of_mem _ hi)) _ (mergeable_put _ _ _)
    rw [merged_eq_foldl ht, merged_eq_foldl (mergeable_reread ht), items_reread]
    refine along _ (fun item hitem hobj o ho => ?_) target ht
    rcases mem_items hitem with hpart | ⟨hself, hscalar⟩
    · exact ih item.2 hpart o ho
    · rw [hself, hscalar] at hobj
      cases hobj

theorem reread_mergeAll (sources : List Json) :
    (mergeAll sources).reread = mergeAll (sources.map reread) := by
  induction sources using List.reverseRecOn with
  | nil => rfl
  | append_singleton sources source ih =>
    rw [mergeAll_concat, reread_merged source _ (mergeAll_mergeable sources), ih, List.map_append,
      List.map_singleton, mergeAll_concat]

theorem mergeAll_ordered {sources : List Json} (ordered : ∀ source ∈ sources, source.Ordered) :
    (mergeAll sources).Ordered := by
  induction sources using List.reverseRecOn with
  | nil => trivial
  | append_singleton sources source ih =>
    rw [mergeAll_concat]
    refine merged_ordered source (ordered source (by simp)) _ (mergeAll_mergeable sources) (ih ?_)
    exact fun s hs => ordered s (List.mem_append_left _ hs)

/-! ### Values that are read back as they are -/

/-- A value whose text is read back as the value. -/
structure Kept (F : FloatText) (j : Json) : Prop where
  ordered : j.Ordered
  prints : Prints F j
  reread : j.reread = j

variable {F : FloatText}

theorem Kept.null : Kept F .null := ⟨trivial, trivial, rfl⟩

theorem Kept.string (s : String) : Kept F (.string s) := ⟨trivial, trivial, rfl⟩

theorem Kept.boolean (b : Bool) : Kept F (.boolean b) := ⟨trivial, trivial, rfl⟩

theorem Kept.numberUnsigned (n : UInt64) : Kept F (.numberUnsigned n) := ⟨trivial, trivial, rfl⟩

theorem Kept.array {elements : List Json} (h : ∀ v ∈ elements, Kept F v) :
    Kept F (.array elements) where
  ordered := orderedElements_iff.mpr fun v hv => (h v hv).ordered
  prints := printsElements_iff.mpr fun v hv => (h v hv).prints
  reread := by
    have hsame : elements.map Json.reread = elements.map id :=
      List.map_congr_left fun v hv => (h v hv).reread
    rw [Json.reread, rereadElements_eq, hsame, List.map_id]

theorem Kept.object {members : List (String × Json)}
    (sorted : (members.map Prod.fst).Pairwise (· < ·)) (h : ∀ m ∈ members, Kept F m.2) :
    Kept F (.object members) where
  ordered := ⟨sorted, orderedMembers_iff.mpr fun m hm => (h m hm).ordered⟩
  prints := printsMembers_iff.mpr fun m hm => (h m hm).prints
  reread := by
    have hsame : members.map (fun m => (m.1, Json.reread m.2)) = members.map id :=
      List.map_congr_left fun m hm => Prod.ext rfl (h m hm).reread
    rw [Json.reread, rereadMembers_eq, hsame, List.map_id]

theorem Kept.put {j value : Json} (hj : Kept F j) (hm : j.Mergeable) (key : String)
    (hv : Kept F value) : Kept F (j.put key value) where
  ordered := put_ordered hm hj.ordered hv.ordered
  prints := (hereditary_prints F).put hj.prints hv.prints
  reread := by rw [put_reread hm, hj.reread, hv.reread]

end Json
