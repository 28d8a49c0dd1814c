import CordactylBot.JsonWrapper.Paths

/-!
Laws of repeated merging.

Objects with the same value under every key are equal (`ext_of_find?`), so a law about
merges is a law about what is found under each key, by induction over the values.

* `deepMerge_assoc` — merging two updates one after the other is merging their merge,
  as long as no key of the target and of the second update is of one container kind
  where the first update has another kind between them.
* `deepMerge_idem` — an update without arrays changes nothing the second time.
* `merged_null` — merging into null is taking the source.
-/

namespace Json

/-! ### Extensionality -/

/-- **Objects are what is found under their keys.** -/
theorem ext_of_find? {a b : Json} (ha : a.Ordered) (hb : b.Ordered) (hao : a.isObject = true)
    (hbo : b.isObject = true) (h : ∀ key, a.find? key = b.find? key) : a = b := by
  obtain ⟨as, rfl⟩ := isObject_iff.mp hao
  obtain ⟨bs, rfl⟩ := isObject_iff.mp hbo
  have nodup : ∀ {members : List (String × Json)}, (members.map Prod.fst).Pairwise (· < ·) →
      (members.map Prod.fst).Nodup := fun hm => hm.imp fun hlt => ne_of_lt hlt
  have same : ∀ m, m ∈ as ↔ m ∈ bs := by
    rintro ⟨key, value⟩
    rw [← lookup_eq_some_iff (nodup ha.1), ← lookup_eq_some_iff (nodup hb.1)]
    exact iff_of_eq (congrArg (· = some value) (h key))
  have perm : as.Perm bs :=
    (List.perm_ext_iff_of_nodup (nodup ha.1).of_map (nodup hb.1).of_map).mpr same
  refine congrArg object (perm.eq_of_pairwise ?_ (List.pairwise_map.mp ha.1)
    (List.pairwise_map.mp hb.1))
  exact fun m n _ _ hmn hnm => absurd hnm (lt_asymm hmn)

/-- Values a merge can have as its target are equal when they are objects or null
together and hold the same under every key. -/
theorem ext_of_mergeable {a b : Json} (hma : a.Mergeable) (hmb : b.Mergeable) (ha : a.Ordered)
    (hb : b.Ordered) (hobject : a.isObject = b.isObject) (h : ∀ key, a.find? key = b.find? key) :
    a = b := by
  cases hao : a.isObject with
  | true => exact ext_of_find? ha hb hao (hobject ▸ hao) h
  | false =>
    have null : ∀ {j : Json}, j.Mergeable → j.isObject = false → j = .null := by
      intro j hm ho
      cases j with
      | null => rfl
      | object members => cases ho
      | _ => cases hm
    rw [null hma hao, null hmb (hobject ▸ hao)]

theorem find?_mem_parts {j value : Json} {key : String} (h : j.find? key = some value) :
    value ∈ j.parts := by
  obtain ⟨members, rfl⟩ := isObject_iff.mp (isObject_of_find? h)
  obtain ⟨before, after, rfl, -⟩ := List.lookup_eq_some_iff.mp h
  simp [parts]

/-! ### When a merge is an object -/

theorem isEmpty_iff {j : Json} (h : j.isObject = true) :
    j.isEmpty = true ↔ ∀ key, j.find? key = none := by
  obtain ⟨members, rfl⟩ := isObject_iff.mp h
  cases members with
  | nil => simp [isEmpty]
  | cons m rest =>
    refine ⟨nofun, fun hnone => ?_⟩
    have := hnone m.1
    rw [find?_object, List.lookup_cons_self] at this
    cases this

/-- What is found under a key after a merge of an object. -/
theorem find?_merged_object {target source : Json} (ht : target.Mergeable) (hs : source.Ordered)
    (hobject : source.isObject = true) (key : String) :
    (merged target source).find? key = mergedUnder (target.find? key) (source.find? key) := by
  obtain ⟨members, rfl⟩ := isObject_iff.mp hobject
  exact find?_merged ht hs key

/-- A merge of an object is an object unless it merges nothing into null. -/
theorem isObject_merged {target source : Json} (ht : target.Mergeable)
    (hobject : source.isObject = true) :
    (merged target source).isObject = (target.isObject || !source.isEmpty) := by
  cases htarget : target.isObject with
  | true => rw [merged_isObject htarget, Bool.true_or]
  | false =>
    obtain ⟨members, rfl⟩ := isObject_iff.mp hobject
    rw [merged_eq_foldl ht]
    cases members with
    | nil => exact htarget
    | cons m rest =>
      have first : (putMerged target m).isObject = true := by
        unfold putMerged put
        split <;> rfl
      have all := @merged_isObject _ (.object rest) first
      rwa [merged_eq_foldl (mergeable_of_isObject first)] at all

/-- A merge of objects is empty when both are. -/
theorem isEmpty_merged {target source : Json} (ht : target.isObject = true)
    (hs : source.Ordered) (hobject : source.isObject = true) :
    (merged target source).isEmpty = (target.isEmpty && source.isEmpty) := by
  rw [Bool.eq_iff_iff, Bool.and_eq_true, isEmpty_iff (merged_isObject ht), isEmpty_iff ht,
    isEmpty_iff hobject, ← forall_and]
  refine forall_congr' fun key => ?_
  rw [find?_merged_object (mergeable_of_isObject ht) hs hobject]
  cases source.find? key <;> simp [mergedUnder]

/-! ### Two updates, one after the other or merged first -/

/-- Both outer values are objects, or both arrays, and the inner one is of another kind. -/
def Clash (outer inner outer' : Option Json) : Prop :=
  ∃ u v w, outer = some u ∧ inner = some v ∧ outer' = some w ∧
    ((u.isObject = true ∧ w.isObject = true ∧ v.isObject = false) ∨
      (u.isArray = true ∧ w.isArray = true ∧ v.isArray = false))

/-- No key path has a clash. -/
def Compatible (t s₁ s₂ : Json) : Prop :=
  ∀ path, path ≠ [] → ¬ Clash (t.get path) (s₁.get path) (s₂.get path)

/-- The values at a path, where there are any, are of one kind. -/
def SameKind (a b : Option Json) : Prop :=
  ∀ u v, a = some u → b = some v → u.isObject = v.isObject ∧ u.isArray = v.isArray

theorem mergedValue_isArray {old : Option Json} {value : Json} :
    (mergedValue old value).isArray = value.isArray := by
  unfold mergedValue
  split
  · rename_i members new
    obtain ⟨both, hboth⟩ := isObject_iff.mp
      (@merged_isObject (.object members) (.object new) rfl)
    rw [hboth]
    rfl
  · rfl
  · rfl

theorem elementsOf_of_not_array {j : Json} (h : j.isArray = false) : elementsOf (some j) = [] := by
  cases j <;> first | rfl | cases h

theorem mergedValue_keeps_ordered {old : Option Json} {value : Json}
    (ho : ∀ o, old = some o → o.Ordered) (hv : value.Ordered) : (mergedValue old value).Ordered :=
  mergedValue_ordered ho hv fun _ o hm hordered => merged_ordered value hv o hm hordered

/-- An array at the end: what is put before it is appended to, or replaced. -/
theorem mergedValue_assoc_array {u v : Json} (elements : List Json)
    (here : ¬ Clash (some u) (some v) (some (.array elements))) :
    mergedValue (some (mergedValue (some u) v)) (.array elements) =
      mergedValue (some u) (mergedValue (some v) (.array elements)) := by
  simp only [mergedValue_array]
  cases hv : v.isArray with
  | true =>
    obtain ⟨vs, rfl⟩ := isArray_iff.mp hv
    rw [mergedValue_array, elementsOf, elementsOf, List.append_assoc]
  | false =>
    have hu : u.isArray = false := by
      by_contra hu
      rw [Bool.not_eq_false] at hu
      exact here ⟨u, v, _, rfl, rfl, rfl, .inr ⟨hu, rfl, hv⟩⟩
    rw [elementsOf_of_not_array hu, elementsOf_of_not_array hv,
      elementsOf_of_not_array (mergedValue_isArray.trans hv)]
    rfl

/-- An object at the end, after a value that is none: it stands as it is. -/
theorem mergedValue_assoc_replaced {u v w : Json} (hw : w.isObject = true)
    (hv : v.isObject = false) (here : ¬ Clash (some u) (some v) (some w)) :
    mergedValue (some (mergedValue (some u) v)) w =
      mergedValue (some u) (mergedValue (some v) w) := by
  have hu : u.isObject = false := by
    by_contra hu
    rw [Bool.not_eq_false] at hu
    exact here ⟨u, v, w, rfl, rfl, rfl, .inl ⟨hu, hw, hv⟩⟩
  rw [mergedValue_of_not_object hv hw, mergedValue_of_not_object hu hw,
    mergedValue_of_not_object (mergedValue_isObject.trans hv) hw]

/-- Two objects at the end: the law holds if it holds under each of their keys. -/
theorem mergedValue_assoc_objects {u v w : Json} (hu : u.Ordered) (hv : v.Ordered)
    (hw : w.Ordered) (hvo : v.isObject = true) (hwo : w.isObject = true)
    (under : ∀ key, mergedUnder (mergedUnder (u.find? key) (v.find? key)) (w.find? key) =
      mergedUnder (u.find? key) (mergedUnder (v.find? key) (w.find? key))) :
    mergedValue (some (mergedValue (some u) v)) w =
      mergedValue (some u) (mergedValue (some v) w) := by
  have one : ∀ {j o : Json}, j.Ordered → some j = some o → o.Ordered :=
    fun h heq => Option.some.inj heq ▸ h
  have huv : (mergedValue (some u) v).Ordered := mergedValue_keeps_ordered (fun _ => one hu) hv
  have hvw : (mergedValue (some v) w).Ordered := mergedValue_keeps_ordered (fun _ => one hv) hw
  have hvwo : (mergedValue (some v) w).isObject = true := mergedValue_isObject.trans hwo
  apply ext_of_find?
  · exact mergedValue_keeps_ordered (fun _ => one huv) hw
  · exact mergedValue_keeps_ordered (fun _ => one hu) hvw
  · exact mergedValue_isObject.trans hwo
  · exact mergedValue_isObject.trans hvwo
  · intro key
    rw [find?_mergedValue hwo hw, find?_mergedValue hvwo hvw, find?_mergedValue hwo hw,
      Option.bind_some, Option.bind_some, Option.bind_some, find?_mergedValue hvo hv,
      Option.bind_some]
    exact under key

/-- **What is merged under a key is associative** where no path clashes, by induction
over the last update. -/
theorem mergedUnder_assoc (w : Json) :
    w.Ordered → ∀ a b : Option Json, (∀ u, a = some u → u.Ordered) →
      (∀ v, b = some v → v.Ordered) →
      (∀ path, ¬ Clash (follow path a) (follow path b) (follow path (some w))) →
      mergedUnder (mergedUnder a b) (some w) = mergedUnder a (mergedUnder b (some w)) := by
  induction w using Json.induction with
  | step w ih =>
    intro hw a b ha hb compatible
    cases a with
    | none => rw [mergedUnder_none_left, mergedUnder_none_left]
    | some u =>
      cases b with
      | none => rw [mergedUnder_none_left]; rfl
      | some v =>
        refine congrArg some ?_
        cases hwo : w.isObject with
        | false =>
          cases hwa : w.isArray with
          | false => simp only [mergedValue_scalar hwo hwa]
          | true =>
            obtain ⟨elements, rfl⟩ := isArray_iff.mp hwa
            exact mergedValue_assoc_array elements (compatible [])
        | true =>
          cases hvo : v.isObject with
          | false => exact mergedValue_assoc_replaced hwo hvo (compatible [])
          | true =>
            apply mergedValue_assoc_objects (ha u rfl) (hb v rfl) hw hvo hwo
            intro key
            cases hx : w.find? key with
            | none => rfl
            | some x =>
              apply ih x (find?_mem_parts hx) (find?_ordered hw hx)
              · exact fun _ hu => find?_ordered (ha u rfl) hu
              · exact fun _ hv => find?_ordered (hb v rfl) hv
              · intro path
                rw [← hx]
                exact compatible (key :: path)

/-- No update changes the kind of a key it finds or the other one has. -/
def KeepsKinds (t s₁ s₂ : Json) : Prop :=
  ∀ path, path ≠ [] → SameKind (t.get path) (s₁.get path) ∧ SameKind (s₁.get path) (s₂.get path)

theorem compatible_of_keepsKinds {t s₁ s₂ : Json} (h : KeepsKinds t s₁ s₂) :
    Compatible t s₁ s₂ := by
  rintro path hpath ⟨u, v, w, hu, hv, -, clash⟩
  obtain ⟨hobject, harray⟩ := (h path hpath).1 u v hu hv
  rcases clash with ⟨ho, -, hn⟩ | ⟨ha, -, hn⟩
  · rw [← hobject, ho] at hn
    cases hn
  · rw [← harray, ha] at hn
    cases hn

theorem merged_assoc {t s₁ s₂ : Json} (ht : t.Mergeable) (hto : t.Ordered) (h₁ : s₁.isObject = true)
    (h₁o : s₁.Ordered) (h₂ : s₂.isObject = true) (h₂o : s₂.Ordered)
    (compatible : Compatible t s₁ s₂) :
    merged (merged t s₁) s₂ = merged t (merged s₁ s₂) := by
  have m₁ := mergeable_of_isObject h₁
  have h₁₂ : (merged s₁ s₂).isObject = true := merged_isObject h₁
  have h₁₂o : (merged s₁ s₂).Ordered := merged_ordered s₂ h₂o s₁ m₁ h₁o
  have mt₁ : (merged t s₁).Mergeable := merged_mergeable ht
  have ht₁o : (merged t s₁).Ordered := merged_ordered s₁ h₁o t ht hto
  apply ext_of_mergeable
  · exact merged_mergeable mt₁
  · exact merged_mergeable ht
  · exact merged_ordered s₂ h₂o _ mt₁ ht₁o
  · exact merged_ordered _ h₁₂o t ht hto
  · rw [isObject_merged mt₁ h₂, isObject_merged ht h₁, isObject_merged ht h₁₂,
      isEmpty_merged h₁ h₂o h₂, Bool.not_and, Bool.or_assoc]
  · intro key
    rw [find?_merged_object mt₁ h₂o h₂, find?_merged_object ht h₁o h₁,
      find?_merged_object ht h₁₂o h₁₂, find?_merged_object m₁ h₂o h₂]
    cases hw : s₂.find? key with
    | none => rfl
    | some w =>
      apply mergedUnder_assoc w (find?_ordered h₂o hw)
      · exact fun _ hu => find?_ordered hto hu
      · exact fun _ hv => find?_ordered h₁o hv
      · intro path
        rw [← hw]
        exact compatible (key :: path) (List.cons_ne_nil _ _)

/-- **Batching merges does not change the result**, unless some key path has a clash. -/
theorem deepMerge_assoc (t s₁ s₂ : OrderedJson) (ht : t.value.Mergeable)
    (h₁ : s₁.value.isObject = true) (h₂ : s₂.value.isObject = true) :
    (Compatible t.value s₁.value s₂.value →
      ∃ result, (deepMerge t.value s₁.value >>= fun u => deepMerge u s₂.value) = .ok result ∧
        (deepMerge s₁.value s₂.value >>= fun u => deepMerge t.value u) = .ok result) ∧
    (KeepsKinds t.value s₁.value s₂.value → Compatible t.value s₁.value s₂.value) := by
  refine ⟨fun compatible => ⟨merged (merged t.value s₁.value) s₂.value, ?_, ?_⟩,
    compatible_of_keepsKinds⟩
  · rw [deepMerge_ok _ _ ht]
    exact deepMerge_ok _ _ (merged_mergeable ht)
  · rw [deepMerge_ok _ _ (mergeable_of_isObject h₁), merged_assoc ht t.ordered h₁ s₁.ordered h₂
      s₂.ordered compatible]
    exact deepMerge_ok _ _ ht

theorem sameKind_arrays (xs ys : List Json) (path : List String) :
    SameKind (follow path (some (.array xs))) (follow path (some (.array ys))) := by
  cases path with
  | nil =>
    intro u v hu hv
    cases hu
    cases hv
    exact ⟨rfl, rfl⟩
  | cons key path =>
    intro u v hu
    simp [follow, find?] at hu

theorem sameKind_objects {key : String} {u v : Json}
    (h : ∀ path, SameKind (follow path (some u)) (follow path (some v))) (path : List String) :
    SameKind (follow path (some (.object [(key, u)]))) (follow path (some (.object [(key, v)]))) := by
  cases path with
  | nil =>
    intro u v hu hv
    cases hu
    cases hv
    exact ⟨rfl, rfl⟩
  | cons key' path =>
    by_cases hkey : key' = key
    · simpa [follow, find?, hkey] using h path
    · have none : ∀ w : Json, List.lookup key' [(key, w)] = none := by
        intro w
        simp [List.lookup_cons, beq_false_of_ne hkey]
      intro u v hu
      rw [follow, Option.bind_some, find?, none, follow_none] at hu
      cases hu

/-- Two updates of a payload with an array under the same keys. -/
theorem deepMerge_assoc_nested :
    ∃ result, (deepMerge (nested 1).value (nested 2).value >>= fun u =>
        deepMerge u (nested 3).value) = .ok result ∧
      (deepMerge (nested 2).value (nested 3).value >>= fun u =>
        deepMerge (nested 1).value u) = .ok result := by
  obtain ⟨assoc, compatible⟩ := deepMerge_assoc (nested 1) (nested 2) (nested 3) trivial rfl rfl
  have same : ∀ m n path, SameKind ((nested m).value.get path) ((nested n).value.get path) :=
    fun m n path => sameKind_objects (sameKind_objects (sameKind_arrays _ _)) path
  exact assoc (compatible fun path _ => ⟨same 1 2 path, same 2 3 path⟩)

/-! ### The same update twice -/

mutual
/-- An array somewhere in the value. -/
def hasArray : Json → Bool
  | .array _ => true
  | .object members => membersHaveArray members
  | _ => false

def membersHaveArray : List (String × Json) → Bool
  | [] => false
  | (_, v) :: rest => hasArray v || membersHaveArray rest
end

theorem membersHaveArray_eq_false {members : List (String × Json)} :
    membersHaveArray members = false ↔ ∀ m ∈ members, hasArray m.2 = false := by
  induction members with
  | nil => simp [membersHaveArray]
  | cons m rest ih =>
    obtain ⟨k, v⟩ := m
    simp [membersHaveArray, ih]

theorem hasArray_find? {j value : Json} {key : String} (hj : j.hasArray = false)
    (h : j.find? key = some value) : value.hasArray = false := by
  obtain ⟨members, rfl⟩ := isObject_iff.mp (isObject_of_find? h)
  obtain ⟨before, after, rfl, -⟩ := List.lookup_eq_some_iff.mp h
  rw [hasArray, membersHaveArray_eq_false] at hj
  exact hj (key, value) (List.mem_append_right _ List.mem_cons_self)

theorem isArray_of_hasArray {j : Json} (h : j.hasArray = false) : j.isArray = false := by
  cases j <;> first | rfl | cases h

/-- **A value without arrays, merged twice, is merged once**, by induction over it. -/
theorem mergedValue_idem (v : Json) :
    v.Ordered → v.hasArray = false → ∀ old : Option Json, (∀ o, old = some o → o.Ordered) →
      mergedValue (some (mergedValue old v)) v = mergedValue old v := by
  induction v using Json.induction with
  | step v ih =>
    intro hv hfree old hold
    cases hobject : v.isObject with
    | false => simp only [mergedValue_scalar hobject (isArray_of_hasArray hfree)]
    | true =>
      have once : (mergedValue old v).Ordered := mergedValue_keeps_ordered hold hv
      apply ext_of_find?
      · exact mergedValue_keeps_ordered (fun o ho => Option.some.inj ho ▸ once) hv
      · exact once
      · exact mergedValue_isObject.trans hobject
      · exact mergedValue_isObject.trans hobject
      intro key
      rw [find?_mergedValue hobject hv, Option.bind_some, find?_mergedValue hobject hv]
      cases hx : v.find? key with
      | none => rfl
      | some x =>
        refine congrArg some ?_
        apply ih x (find?_mem_parts hx) (find?_ordered hv hx) (hasArray_find? hfree hx)
        intro o ho
        obtain ⟨u, hu, hfind⟩ := Option.bind_eq_some_iff.mp ho
        exact find?_ordered (hold u hu) hfind

theorem merged_idem {t s : Json} (ht : t.Mergeable) (hto : t.Ordered) (hs : s.isObject = true)
    (hso : s.Ordered) (hfree : s.hasArray = false) : merged (merged t s) s = merged t s := by
  have once : (merged t s).Mergeable := merged_mergeable ht
  have onceOrdered : (merged t s).Ordered := merged_ordered s hso t ht hto
  apply ext_of_mergeable
  · exact merged_mergeable once
  · exact once
  · exact merged_ordered s hso _ once onceOrdered
  · exact onceOrdered
  · rw [isObject_merged once hs, isObject_merged ht hs, Bool.or_assoc, Bool.or_self]
  · intro key
    rw [find?_merged_object once hso hs, find?_merged_object ht hso hs]
    cases hx : s.find? key with
    | none => rfl
    | some x =>
      refine congrArg some ?_
      exact mergedValue_idem x (find?_ordered hso hx) (hasArray_find? hfree hx) _
        fun _ ho => find?_ordered hto ho

/-- Merging an object into null takes the object; the empty one changes nothing. -/
theorem merged_null {s : Json} (hs : s.isObject = true) (hso : s.Ordered) :
    merged .null s = if s.isEmpty then .null else s := by
  have null : Mergeable .null := trivial
  have object := isObject_merged null hs
  split
  · rename_i hempty
    rw [hempty] at object
    have mergeable : (merged .null s).Mergeable := merged_mergeable null
    cases hm : merged .null s with
    | null => rfl
    | object members =>
      rw [hm] at object
      cases object
    | _ =>
      rw [hm] at mergeable
      cases mergeable
  · rename_i hne
    rw [Bool.not_eq_true] at hne
    rw [hne] at object
    apply ext_of_find? (merged_ordered s hso .null null trivial) hso object hs
    intro key
    rw [find?_merged_object null hso hs, find?_null, mergedUnder_none_left]

/-- **Re-applying an update is harmless**: an update without arrays changes nothing the
second time, and an update of null is taken as it is. -/
theorem deepMerge_idem (t s : OrderedJson) (ht : t.value.Mergeable) (hs : s.value.isObject = true) :
    (s.value.hasArray = false →
      ∃ result, deepMerge t.value s.value = .ok result ∧ deepMerge result s.value = .ok result) ∧
    deepMerge .null s.value = .ok (if s.value.isEmpty then .null else s.value) := by
  refine ⟨fun hfree => ⟨merged t.value s.value, deepMerge_ok _ _ ht, ?_⟩, ?_⟩
  · rw [deepMerge_ok _ _ (merged_mergeable ht), merged_idem ht t.ordered hs s.ordered hfree]
  · have null : Mergeable .null := trivial
    rw [deepMerge_ok _ _ null, merged_null hs s.ordered]

/-- A flag that was an array before. -/
def flagged : OrderedJson where
  value := .object [("a", .object [("b", .boolean true)])]
  ordered := by simp [Ordered, OrderedMembers]

theorem deepMerge_idem_flagged :
    (∃ result, deepMerge (nested 1).value flagged.value = .ok result ∧
      deepMerge result flagged.value = .ok result) ∧
    deepMerge .null flagged.value = .ok flagged.value := by
  obtain ⟨twice, null⟩ := deepMerge_idem (nested 1) flagged trivial rfl
  exact ⟨twice rfl, null⟩

end Json
