import CordactylBot.JsonWrapper

/-!
What a merge leaves at a path.

A path is followed through objects only, so an array or a scalar on the way ends it.
At every path the source decides: where it holds a value, that value is merged with
the target's; where a value that is no object blocks it, nothing is left; and where it
says nothing, the target stays as it was.

* `follow_mergedUnder_of_some`, `follow_mergedUnder_of_blocked`,
  `follow_mergedUnder_of_untouched` — the three cases.
* `deepMerge_paths` — the value at each path after a merge, by the kind of the
  source's.
-/

namespace Json

/-- `get(j, path)`: follow the keys through objects. -/
def get (j : Json) (path : List String) : Option Json :=
  follow path (some j)

/-- The keys of an object. -/
def keys : Json → List String
  | .object members => members.map Prod.fst
  | _ => []

/-- A proper prefix of the path leads to a value that is no object. -/
def Blocked (value : Option Json) (path : List String) : Prop :=
  ∃ first rest v, path = first ++ rest ∧ rest ≠ [] ∧
    follow first value = some v ∧ v.isObject = false

theorem mem_keys_iff {j : Json} {key : String} : key ∈ j.keys ↔ ∃ v, j.find? key = some v := by
  constructor
  · intro h
    cases hfind : j.find? key with
    | some v => exact ⟨v, rfl⟩
    | none =>
      cases j with
      | object members =>
        obtain ⟨m, hm, rfl⟩ := List.mem_map.mp h
        have := List.lookup_eq_none_iff.mp hfind m hm
        simp at this
      | _ => cases h
  · rintro ⟨v, hv⟩
    by_contra h
    cases j with
    | object members => rw [find?_object, lookup_eq_none_of_notMem h] at hv; cases hv
    | _ => cases hv

/-! ### One key further -/

theorem find?_of_not_object {j : Json} (h : j.isObject = false) (key : String) :
    j.find? key = none := by
  cases j <;> first | rfl | cases h

theorem mergedValue_isObject {old : Option Json} {value : Json} :
    (mergedValue old value).isObject = value.isObject := by
  unfold mergedValue
  split
  · exact merged_isObject rfl
  · rfl
  · rfl

/-- Nothing to merge into leaves the new value. -/
@[simp] theorem mergedUnder_none_left (value : Option Json) : mergedUnder none value = value := by
  cases value with
  | none => rfl
  | some v => cases v <;> rfl

/-- A value that is no object gives way to an object. -/
theorem mergedValue_of_not_object {old value : Json} (ho : old.isObject = false)
    (hv : value.isObject = true) : mergedValue (some old) value = value := by
  obtain ⟨members, rfl⟩ := isObject_iff.mp hv
  cases old <;> first | rfl | cases ho

/-- Below an object of the source, a merge goes on with what both sides hold there. -/
theorem find?_mergedValue {old : Option Json} {value : Json} (hv : value.isObject = true)
    (hs : value.Ordered) (key : String) :
    (mergedValue old value).find? key =
      mergedUnder (old.bind fun o => o.find? key) (value.find? key) := by
  cases old with
  | none =>
    obtain ⟨members, rfl⟩ := isObject_iff.mp hv
    exact (mergedUnder_none_left _).symm
  | some o =>
    cases ho : o.isObject with
    | true =>
      obtain ⟨members, rfl⟩ := isObject_iff.mp hv
      rw [mergedValue_of_objects ho rfl, find?_merged (mergeable_of_isObject ho) hs]
      rfl
    | false =>
      rw [mergedValue_of_not_object ho hv, Option.bind_some, find?_of_not_object ho,
        mergedUnder_none_left]

/-! ### The three cases of a path -/

/-- Where the source holds a value, it is merged with the target's. -/
theorem follow_mergedUnder_of_some {path : List String} :
    ∀ {old value : Option Json} {v : Json}, (∀ u, value = some u → u.Ordered) →
      follow path value = some v →
      follow path (mergedUnder old value) = some (mergedValue (follow path old) v) := by
  induction path with
  | nil =>
    intro old value v _ hv
    rw [follow] at hv
    rw [hv]
    rfl
  | cons key path ih =>
    intro old value v hs hv
    cases value with
    | none =>
      rw [follow_none] at hv
      cases hv
    | some u =>
      cases hu : u.isObject with
      | false =>
        rw [follow, Option.bind_some, find?_of_not_object hu, follow_none] at hv
        cases hv
      | true =>
        simp only [follow, mergedUnder, Option.bind_some] at hv ⊢
        rw [find?_mergedValue hu (hs u rfl)]
        exact ih (fun w hw => find?_ordered (hs u rfl) hw) hv

theorem follow_append (path rest : List String) (j : Option Json) :
    follow (path ++ rest) j = follow rest (follow path j) := by
  induction path generalizing j with
  | nil => rfl
  | cons key path ih => exact ih _

/-- Where a value of the source that is no object ends the path, nothing is left. -/
theorem follow_mergedUnder_of_blocked {path : List String} {old value : Option Json}
    (hs : ∀ u, value = some u → u.Ordered) (h : Blocked value path) :
    follow path (mergedUnder old value) = none := by
  obtain ⟨first, rest, v, rfl, hrest, hv, hscalar⟩ := h
  rw [follow_append, follow_mergedUnder_of_some hs hv]
  obtain ⟨key, rest, rfl⟩ := List.exists_cons_of_ne_nil hrest
  rw [follow, Option.bind_some, find?_of_not_object (mergedValue_isObject.trans hscalar), follow_none]

theorem Blocked.below {key : String} {path : List String} {u : Json}
    (h : Blocked (u.find? key) path) : Blocked (some u) (key :: path) := by
  obtain ⟨first, rest, v, rfl, hrest, hv, hscalar⟩ := h
  exact ⟨key :: first, rest, v, rfl, hrest, hv, hscalar⟩

/-- Where the source has nothing, and objects on the way as far as it goes, the target
stays. -/
theorem follow_mergedUnder_of_untouched {path : List String} :
    ∀ {old value : Option Json}, (∀ u, value = some u → u.Ordered) →
      follow path value = none → ¬ Blocked value path →
      follow path (mergedUnder old value) = follow path old := by
  induction path with
  | nil =>
    intro old value _ hnone _
    rw [follow] at hnone
    rw [hnone]
    rfl
  | cons key path ih =>
    intro old value hs hnone hopen
    cases value with
    | none => rfl
    | some u =>
      have hobject : u.isObject = true := by
        by_contra hscalar
        rw [Bool.not_eq_true] at hscalar
        exact hopen ⟨[], key :: path, u, rfl, List.cons_ne_nil _ _, rfl, hscalar⟩
      simp only [follow, mergedUnder, Option.bind_some] at hnone ⊢
      rw [find?_mergedValue hobject (hs u rfl)]
      exact ih (fun w hw => find?_ordered (hs u rfl) hw) hnone fun hb => hopen hb.below

/-! ### The meaning of a merge -/

theorem follow_ordered {path : List String} :
    ∀ {j : Option Json} {v : Json}, (∀ u, j = some u → u.Ordered) → follow path j = some v →
      v.Ordered := by
  induction path with
  | nil => exact fun hs hv => hs _ hv
  | cons key path ih =>
    intro j v hs hv
    apply ih _ hv
    intro w hw
    obtain ⟨u, hu, hfind⟩ := Option.bind_eq_some_iff.mp hw
    exact find?_ordered (hs u hu) hfind

/-- What the result holds at a path, by what the source holds there. -/
structure MergedAt (target source result : Json) (path : List String) : Prop where
  scalar : ∀ v, source.get path = some v → v.isObject = false → v.isArray = false →
    result.get path = some v
  array : ∀ elements, source.get path = some (.array elements) →
    result.get path = some (.array (elementsOf (target.get path) ++ elements))
  object : ∀ members, source.get path = some (.object members) →
    ∃ both, result.get path = some (.object both) ∧ ∀ key, key ∈ (Json.object both).keys ↔
      key ∈ (Json.object members).keys ∨ ∃ old, target.get path = some old ∧ key ∈ old.keys
  blocked : source.get path = none → Blocked (some source) path → result.get path = none
  untouched : source.get path = none → ¬ Blocked (some source) path →
    result.get path = target.get path

/-- An array is appended to an array, and put in the place of anything else. -/
theorem mergedValue_array (old : Option Json) (elements : List Json) :
    mergedValue old (.array elements) = .array (elementsOf old ++ elements) := by
  cases old with
  | none => rfl
  | some o => cases o <;> rfl

/-- An object has the keys of both sides after a merge. -/
theorem mem_keys_mergedValue {old : Option Json} {value : Json} (hv : value.isObject = true)
    (hs : value.Ordered) (key : String) :
    key ∈ (mergedValue old value).keys ↔ key ∈ value.keys ∨ ∃ o, old = some o ∧ key ∈ o.keys := by
  simp only [mem_keys_iff, find?_mergedValue hv hs]
  cases hnew : value.find? key with
  | some v => simp [mergedUnder]
  | none =>
    cases old with
    | none => simp [mergedUnder]
    | some o => simp [mergedUnder]

theorem mergedValue_scalar {value : Json} (hobject : value.isObject = false)
    (harray : value.isArray = false) (old : Option Json) : mergedValue old value = value := by
  unfold mergedValue
  split
  · cases hobject
  · cases harray
  · rfl

/-- At a non-empty path, a merge into null or an object is the merge of what both
sides hold under the first key. -/
theorem get_merged {target source : Json} (ht : target.Mergeable) (hs : source.Ordered)
    (hobject : source.isObject = true) (key : String) (path : List String) :
    (merged target source).get (key :: path) =
      follow path (mergedUnder (target.find? key) (source.find? key)) := by
  obtain ⟨members, rfl⟩ := isObject_iff.mp hobject
  rw [get, follow, Option.bind_some, find?_merged ht hs]
  rfl

/-- **The path-wise meaning of `deep_merge`.** The recursion ends with a result for every
target that is null or an object and every object source, and at every path the result
is what the source's value there says. -/
theorem deepMerge_paths (target source : OrderedJson) (ht : target.value.Mergeable)
    (hs : source.value.isObject = true) :
    ∃ result, deepMerge target.value source.value = .ok result ∧
      ∀ path, path ≠ [] → MergedAt target.value source.value result path := by
  refine ⟨_, deepMerge_ok _ _ ht, fun path hpath => ?_⟩
  obtain ⟨key, path, rfl⟩ := List.exists_cons_of_ne_nil hpath
  have under : ∀ j : Json, j.get (key :: path) = follow path (j.find? key) := fun _ => rfl
  have ordered : ∀ u, source.value.find? key = some u → u.Ordered := fun u hu =>
    find?_ordered source.ordered hu
  have touched : ∀ v, source.value.get (key :: path) = some v →
      (merged target.value source.value).get (key :: path) =
        some (mergedValue (target.value.get (key :: path)) v) := by
    intro v hv
    rw [get_merged ht source.ordered hs]
    exact follow_mergedUnder_of_some ordered hv
  constructor
  · intro v hv hobject harray
    rw [touched v hv, mergedValue_scalar hobject harray]
  · intro elements hv
    rw [touched _ hv, mergedValue_array]
  · intro members hv
    have hvo : (Json.object members).Ordered := follow_ordered ordered hv
    have merges : (mergedValue (target.value.get (key :: path)) (.object members)).isObject = true :=
      mergedValue_isObject.trans rfl
    obtain ⟨both, hboth⟩ := isObject_iff.mp merges
    refine ⟨both, (touched _ hv).trans (congrArg some hboth), fun k => ?_⟩
    rw [← hboth]
    exact mem_keys_mergedValue rfl hvo k
  · rintro - ⟨first, rest, v, hsplit, hrest, hv, hscalar⟩
    rw [get_merged ht source.ordered hs]
    apply follow_mergedUnder_of_blocked ordered
    cases first with
    | nil =>
      cases hv
      rw [hs] at hscalar
      cases hscalar
    | cons key' first =>
      obtain ⟨rfl, rfl⟩ := List.cons.inj hsplit
      exact ⟨first, rest, v, rfl, hrest, hv, hscalar⟩
  · intro hnone hopen
    rw [get_merged ht source.ordered hs]
    exact follow_mergedUnder_of_untouched ordered hnone fun hb => hopen hb.below

/-- An array two objects down. -/
def nested (n : UInt64) : OrderedJson where
  value := .object [("a", .object [("b", .array [.numberUnsigned n])])]
  ordered := by simp [Ordered, OrderedMembers, OrderedElements]

theorem deepMerge_paths_nested :
    ∃ result, deepMerge (nested 1).value (nested 2).value = .ok result ∧
      result.get ["a", "b"] = some (.array [.numberUnsigned 1, .numberUnsigned 2]) := by
  obtain ⟨result, hresult, paths⟩ := deepMerge_paths (nested 1) (nested 2) trivial rfl
  exact ⟨result, hresult, (paths ["a", "b"] (List.cons_ne_nil _ _)).array _ rfl⟩

end Json
