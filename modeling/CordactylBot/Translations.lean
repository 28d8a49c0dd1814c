import CordactylBot.Json.Ordered
import Std.Data.ExtTreeMap

/-!
Translations (`translations.cpp`).

A translation file maps keys to texts. Elements that are no texts, or have an empty
key, are reported and left out (`translationOf`). The files of a directory are loaded
one after the other, and a later file of a language replaces an earlier one.

* `getElem?_translationOf` — what a file translates.
* `translate_loaded` — what is shown for a key after loading.
-/

/-- `translation`. -/
abbrev Translation := Std.ExtTreeMap String String compare

/-- `translations`, by language. -/
abbrev Translations := Std.ExtTreeMap String Translation compare

/-- A translation file: its path, its stem, and what its text parses to. -/
structure TranslationFile where
  path : String
  stem : String
  json : Except String Json

namespace Translations

/-- The translation an element adds, if it adds one. -/
def textOf (item : String × Json) : Option (String × String) :=
  match item with
  | (key, .string text) => if key = "" then none else some (key, text)
  | _ => none

/-- What `parse_localisations` makes of a parsed file. -/
def translationOf (json : Json) : Translation :=
  (json.items.filterMap textOf).foldl (fun t entry => t.insert entry.1 entry.2) ∅

/-- `parse_localisations` on the files of its directory. A file that does not parse ends
it with the text of a `std::runtime_error`. -/
def parseLocalisations (translations : Translations) :
    List TranslationFile → Except String Translations
  | [] => .ok translations
  | file :: files =>
      match file.json with
      | .error what =>
          .error ("Translation file \"" ++ file.path ++ "\" could not be parsed: " ++ what)
      | .ok json => parseLocalisations (translations.insert file.stem (translationOf json)) files

/-- `_`. -/
def translate (translations : Translations) (key language : String) : String :=
  match translations[language]? with
  | some translation => translation[key]?.getD key
  | none => key

/-! ### A file -/

theorem textOf_eq_some {item : String × Json} {key text : String} :
    textOf item = some (key, text) ↔ key ≠ "" ∧ item = (key, .string text) := by
  unfold textOf
  split
  · rename_i k t
    by_cases h : k = ""
    · simp only [h, if_true, reduceCtorEq, false_iff]
      rintro ⟨hkey, heq⟩
      exact hkey (Prod.mk.inj heq).1.symm
    · rw [if_neg h]
      simp only [Option.some.injEq, Prod.mk.injEq, Json.string.injEq]
      exact ⟨fun heq => ⟨heq.1 ▸ h, heq⟩, And.right⟩
  · rename_i hne
    refine iff_of_false (by simp) ?_
    rintro ⟨-, rfl⟩
    exact hne key text rfl

/-- Among pairs with different keys, each is found under its key. -/
theorem getElem?_insertAll {entries : List (String × String)}
    (nodup : (entries.map Prod.fst).Nodup) (t : Translation) (key text : String) :
    (entries.foldl (fun t entry => t.insert entry.1 entry.2) t)[key]? = some text ↔
      (key, text) ∈ entries ∨ key ∉ entries.map Prod.fst ∧ t[key]? = some text := by
  induction entries generalizing t with
  | nil => simp
  | cons entry entries ih =>
    obtain ⟨k, v⟩ := entry
    rw [List.map_cons, List.nodup_cons] at nodup
    rw [List.foldl_cons, ih nodup.2, Std.ExtTreeMap.getElem?_insert]
    by_cases h : k = key
    · subst h
      have fresh : ∀ v, (k, v) ∉ entries := fun v hv => nodup.1 (List.mem_map.mpr ⟨_, hv, rfl⟩)
      simp [fresh, nodup.1, eq_comm]
    · simp [Std.LawfulEqCmp.compare_eq_iff_eq, h, Ne.symm h]

/-- **What a file translates**: the keys of its texts, except the empty one. -/
theorem getElem?_translationOf {json : Json} (h : json.Ordered) {key text : String} :
    (translationOf json)[key]? = some text ↔ key ≠ "" ∧ (key, .string text) ∈ json.items := by
  have nodup : ((json.items.filterMap textOf).map Prod.fst).Nodup := by
    rw [List.Nodup, List.pairwise_map, List.pairwise_filterMap]
    refine (List.pairwise_map.mp (Json.items_nodup h)).imp fun hne => ?_
    rintro ⟨k, v⟩ ha ⟨k', v'⟩ hb
    rw [(textOf_eq_some.mp ha).2, (textOf_eq_some.mp hb).2] at hne
    exact hne
  rw [translationOf, getElem?_insertAll nodup, List.mem_filterMap]
  constructor
  · rintro (⟨item, hitem, htext⟩ | ⟨-, hempty⟩)
    · obtain ⟨hkey, rfl⟩ := textOf_eq_some.mp htext
      exact ⟨hkey, hitem⟩
    · simp at hempty
  · rintro ⟨hkey, hitem⟩
    exact .inl ⟨_, hitem, textOf_eq_some.mpr ⟨hkey, rfl⟩⟩

/-! ### A directory -/

/-- The last file of a language. -/
def lastOf (language : String) : List TranslationFile → Option Json
  | [] => none
  | file :: files =>
      (lastOf language files).or (if file.stem = language then file.json.toOption else none)

theorem getElem?_parseLocalisations {files : List TranslationFile} (language : String) :
    ∀ {translations loaded : Translations}, parseLocalisations translations files = .ok loaded →
      loaded[language]? = ((lastOf language files).map translationOf).or translations[language]? := by
  induction files with
  | nil =>
    intro translations loaded h
    cases h
    rfl
  | cons file files ih =>
    intro translations loaded h
    rw [parseLocalisations] at h
    cases hjson : file.json with
    | error what =>
      rw [hjson] at h
      cases h
    | ok json =>
      rw [hjson] at h
      rw [ih h, lastOf, hjson, Std.ExtTreeMap.getElem?_insert]
      by_cases hstem : file.stem = language
      · cases lastOf language files <;> simp [hstem, Except.toOption]
      · cases lastOf language files <;> simp [hstem, Std.LawfulEqCmp.compare_eq_iff_eq]

/-- **What is shown for a key**: its text in the last file of the language, or the key. -/
theorem translate_loaded {files : List TranslationFile} {loaded : Translations}
    (h : parseLocalisations ∅ files = .ok loaded) (key language : String) :
    translate loaded key language =
      (((lastOf language files).map translationOf).bind fun t => t[key]?).getD key := by
  rw [translate, getElem?_parseLocalisations language h]
  cases lastOf language files with
  | none => simp
  | some json => simp

end Translations
