import Mathlib.Data.Rat.Floor
import Mathlib.Data.String.Basic

/-!
JSON values as nlohmann's `basic_json` keeps and reads them.

`Json` has one constructor for each `value_t` a parsed or assembled value can
have (`binary` and `discarded` values never arise from either). A finite double
is kept as the rational it denotes. The accessors are the library's: the ones
that throw return `Except Exception`, with the library's exception numbers and
texts, and the ones that do not are plain functions.

* `find?`, `contains`, `atKey`, `subscript`, `assign` — member access. `find`
  and `contains` look only inside objects, `at` and `operator[]` throw on the
  wrong kind, and `operator[]` turns null into an object.
* `items` — what `items()` iterates: members of an object, elements of an array
  under their indices, any other non-null value once under the empty key.
* `getUInt64`, `getArithmetic`, `getBool`, `getString` — `get<T>()`.
-/

/-- The `std::exception`s the code can see, each with its text. -/
inductive Exception where
  | typeError (id : Nat) (text : String)
  | outOfRange (id : Nat) (text : String)
  | invalidArgument (text : String)
deriving DecidableEq, Repr

/-- `what()`: nlohmann prefixes its own exceptions with their name and number. -/
def Exception.what : Exception → String
  | .typeError id text => "[json.exception.type_error." ++ toString id ++ "] " ++ text
  | .outOfRange id text => "[json.exception.out_of_range." ++ toString id ++ "] " ++ text
  | .invalidArgument text => text

/-- A JSON value. Object members are listed as the library's `std::map` iterates
them; `Json.Ordered` states that order. -/
inductive Json where
  | null
  | boolean (b : Bool)
  | numberInteger (n : Int64)
  | numberUnsigned (n : UInt64)
  | numberFloat (q : Rat)
  | string (s : String)
  | array (elements : List Json)
  | object (members : List (String × Json))
deriving Repr, Inhabited

namespace Json

/-! ### Equality of values is decidable -/

mutual
def beq : Json → Json → Bool
  | .null, .null => true
  | .boolean a, .boolean b => a == b
  | .numberInteger a, .numberInteger b => a == b
  | .numberUnsigned a, .numberUnsigned b => a == b
  | .numberFloat a, .numberFloat b => a == b
  | .string a, .string b => a == b
  | .array as, .array bs => beqElements as bs
  | .object as, .object bs => beqMembers as bs
  | _, _ => false

def beqElements : List Json → List Json → Bool
  | [], [] => true
  | a :: as, b :: bs => beq a b && beqElements as bs
  | _, _ => false

def beqMembers : List (String × Json) → List (String × Json) → Bool
  | [], [] => true
  | (k, a) :: as, (l, b) :: bs => k == l && beq a b && beqMembers as bs
  | _, _ => false
end

mutual
theorem beq_iff : ∀ a b : Json, beq a b = true ↔ a = b
  | .null, b => by cases b <;> simp [beq]
  | .boolean a, b => by cases b <;> simp [beq]
  | .numberInteger a, b => by cases b <;> simp [beq]
  | .numberUnsigned a, b => by cases b <;> simp [beq]
  | .numberFloat a, b => by cases b <;> simp [beq]
  | .string a, b => by cases b <;> simp [beq]
  | .array as, b => by cases b <;> simp [beq, beqElements_iff as]
  | .object as, b => by cases b <;> simp [beq, beqMembers_iff as]

theorem beqElements_iff : ∀ as bs : List Json, beqElements as bs = true ↔ as = bs
  | [], bs => by cases bs <;> simp [beqElements]
  | a :: as, bs => by cases bs <;> simp [beqElements, beq_iff a, beqElements_iff as]

theorem beqMembers_iff :
    ∀ as bs : List (String × Json), beqMembers as bs = true ↔ as = bs
  | [], bs => by cases bs <;> simp [beqMembers]
  | (k, a) :: as, bs => by
      cases bs with
      | nil => simp [beqMembers]
      | cons m bs => simp [beqMembers, beq_iff a, beqMembers_iff as, Prod.ext_iff]
end

instance : DecidableEq Json := fun a b => decidable_of_iff _ (beq_iff a b)

/-! ### Induction over the parts of a value -/

/-- The values directly inside a value. -/
def parts : Json → List Json
  | .array elements => elements
  | .object members => members.map Prod.snd
  | _ => []

mutual
theorem induction {p : Json → Prop} (step : ∀ j, (∀ part ∈ j.parts, p part) → p j) :
    ∀ j, p j
  | .null => step _ (by simp [parts])
  | .boolean _ => step _ (by simp [parts])
  | .numberInteger _ => step _ (by simp [parts])
  | .numberUnsigned _ => step _ (by simp [parts])
  | .numberFloat _ => step _ (by simp [parts])
  | .string _ => step _ (by simp [parts])
  | .array elements => step _ (inductionElements step elements)
  | .object members => step _ (inductionMembers step members)

theorem inductionElements {p : Json → Prop} (step : ∀ j, (∀ part ∈ j.parts, p part) → p j) :
    ∀ elements : List Json, ∀ part ∈ elements, p part
  | [], _, h => by cases h
  | v :: rest, part, h => by
      rcases List.mem_cons.mp h with h | h
      · exact h ▸ induction step v
      · exact inductionElements step rest part h

theorem inductionMembers {p : Json → Prop} (step : ∀ j, (∀ part ∈ j.parts, p part) → p j) :
    ∀ members : List (String × Json), ∀ part ∈ members.map Prod.snd, p part
  | [], _, h => by cases h
  | (_, v) :: rest, part, h => by
      rcases List.mem_cons.mp h with h | h
      · exact h ▸ induction step v
      · exact inductionMembers step rest part h
end

/-! ### Kinds -/

/-- `type_name()`. -/
def typeName : Json → String
  | .null => "null"
  | .object _ => "object"
  | .array _ => "array"
  | .string _ => "string"
  | .boolean _ => "boolean"
  | _ => "number"

def isNull : Json → Bool
  | .null => true
  | _ => false

def isObject : Json → Bool
  | .object _ => true
  | _ => false

def isArray : Json → Bool
  | .array _ => true
  | _ => false

def isString : Json → Bool
  | .string _ => true
  | _ => false

def isNumberUnsigned : Json → Bool
  | .numberUnsigned _ => true
  | _ => false

/-- `empty()`: null and the containers without elements. -/
def isEmpty : Json → Bool
  | .null => true
  | .array elements => elements.isEmpty
  | .object members => members.isEmpty
  | _ => false

theorem isObject_iff {j : Json} : j.isObject = true ↔ ∃ members, j = .object members := by
  cases j <;> simp [isObject]

theorem isArray_iff {j : Json} : j.isArray = true ↔ ∃ elements, j = .array elements := by
  cases j <;> simp [isArray]

/-! ### Member access -/

/-- `find(key)`: the member's value, and nothing for a value that is no object. -/
def find? (j : Json) (key : String) : Option Json :=
  match j with
  | .object members => members.lookup key
  | _ => none

/-- `contains(key)`. -/
def contains (j : Json) (key : String) : Bool :=
  (j.find? key).isSome

/-- `at(key)`. -/
def atKey (j : Json) (key : String) : Except Exception Json :=
  match j with
  | .object members =>
      match members.lookup key with
      | some value => .ok value
      | none => .error (.outOfRange 403 ("key '" ++ key ++ "' not found"))
  | j => .error (.typeError 304 ("cannot use at() with " ++ j.typeName))

/-- The value `operator[](key)` refers to. A key that is not there would first be
inserted with null; every reader of the code tests for the key before. -/
def subscript (j : Json) (key : String) : Except Exception Json :=
  match j with
  | .null => .ok .null
  | .object members => .ok ((members.lookup key).getD .null)
  | j => .error (.typeError 305 ("cannot use operator[] with a string argument with " ++ j.typeName))

/-- Put a member where the `std::map` keeps it. -/
def insertMember (key : String) (value : Json) : List (String × Json) → List (String × Json)
  | [] => [(key, value)]
  | (k, v) :: rest =>
      if key = k then (key, value) :: rest
      else if key < k then (key, value) :: (k, v) :: rest
      else (k, v) :: insertMember key value rest

/-- `j[key] = value`. -/
def assign (j : Json) (key : String) (value : Json) : Except Exception Json :=
  match j with
  | .null => .ok (.object [(key, value)])
  | .object members => .ok (.object (insertMember key value members))
  | j => .error (.typeError 305 ("cannot use operator[] with a string argument with " ++ j.typeName))

/-- `push_back(value)`. -/
def pushBack (j : Json) (value : Json) : Except Exception Json :=
  match j with
  | .null => .ok (.array [value])
  | .array elements => .ok (.array (elements ++ [value]))
  | j => .error (.typeError 308 ("cannot use push_back() with " ++ j.typeName))

/-- `insert(end(), other.begin(), other.end())` for another array. -/
def insertAtEnd (j other : Json) : Except Exception Json :=
  match j, other with
  | .array xs, .array ys => .ok (.array (xs ++ ys))
  | j, _ => .error (.typeError 309 ("cannot use insert() with " ++ j.typeName))

/-- The elements of an array under the keys `items()` gives them, counting from `i`. -/
def indexed (i : Nat) : List Json → List (String × Json)
  | [] => []
  | v :: rest => (toString i, v) :: indexed (i + 1) rest

/-- The key-value pairs of `items()`, in the order of the iteration. -/
def items : Json → List (String × Json)
  | .null => []
  | .object members => members
  | .array elements => indexed 0 elements
  | j => [("", j)]

theorem mem_indexed {i : Nat} {m : String × Json} {elements : List Json}
    (h : m ∈ indexed i elements) : m.2 ∈ elements := by
  induction elements generalizing i with
  | nil => cases h
  | cons v rest ih =>
    rcases List.mem_cons.mp h with rfl | h
    · exact List.mem_cons_self
    · exact List.mem_cons_of_mem _ (ih h)

/-- `items()` iterates parts of the value, or the value itself when it is a scalar. -/
theorem mem_items {j : Json} {m : String × Json} (h : m ∈ j.items) :
    m.2 ∈ j.parts ∨ (m.2 = j ∧ j.isObject = false) := by
  cases j with
  | null => cases h
  | array elements => exact .inl (mem_indexed h)
  | object members => exact .inl (List.mem_map_of_mem h)
  | _ =>
    rw [items, List.mem_singleton] at h
    · exact .inr ⟨congrArg Prod.snd h, rfl⟩
    all_goals simp

/-- The value `items()` gives under a key. -/
def itemAt (j : Json) (key : String) : Option Json :=
  j.items.lookup key

/-! ### Conversions -/

/-- `static_cast` from a double to an unsigned type of `bits` bits: truncation
toward zero where the result fits. Elsewhere C++ leaves the result open, and it
is what `undefined` says. -/
def castFloat (undefined : Nat → Rat → Nat) (bits : Nat) (q : Rat) : Nat :=
  let t := if 0 ≤ q then q.floor else q.ceil
  if 0 ≤ t ∧ t < 2 ^ bits then t.toNat else undefined bits q % 2 ^ bits

/-- `get<uint64_t>()`. -/
def getUInt64 (undefined : Nat → Rat → Nat) : Json → Except Exception UInt64
  | .numberUnsigned n => .ok n
  | .numberInteger n => .ok n.toUInt64
  | .numberFloat q => .ok (UInt64.ofNat (castFloat undefined 64 q))
  | j => .error (.typeError 302 ("type must be number, but is " ++ j.typeName))

/-- `get<T>()` for the other unsigned types. Their overload, unlike the one for
`uint64_t`, also takes a boolean. -/
def getArithmetic (undefined : Nat → Rat → Nat) (bits : Nat) : Json → Except Exception Nat
  | .numberUnsigned n => .ok (n.toNat % 2 ^ bits)
  | .numberInteger n => .ok (n.toUInt64.toNat % 2 ^ bits)
  | .numberFloat q => .ok (castFloat undefined bits q)
  | .boolean b => .ok b.toNat
  | j => .error (.typeError 302 ("type must be number, but is " ++ j.typeName))

/-- `get<bool>()`. -/
def getBool : Json → Except Exception Bool
  | .boolean b => .ok b
  | j => .error (.typeError 302 ("type must be boolean, but is " ++ j.typeName))

/-- `get<std::string>()`. -/
def getString : Json → Except Exception String
  | .string s => .ok s
  | j => .error (.typeError 302 ("type must be string, but is " ++ j.typeName))

/-! ### What access does on objects -/

@[simp] theorem find?_object (members : List (String × Json)) (key : String) :
    (Json.object members).find? key = members.lookup key := rfl

@[simp] theorem find?_null (key : String) : Json.null.find? key = none := rfl

theorem contains_iff {j : Json} {key : String} :
    j.contains key = true ↔ ∃ value, j.find? key = some value :=
  Option.isSome_iff_exists

theorem find?_of_not_contains {j : Json} {key : String} (h : ¬ j.contains key = true) :
    j.find? key = none :=
  Option.not_isSome_iff_eq_none.mp h

/-- Only an object contains a key. -/
theorem isObject_of_find? {j value : Json} {key : String} (h : j.find? key = some value) :
    j.isObject = true := by
  cases j <;> simp [find?] at h
  rfl

/-- Once a key is known to be there, `at` and `operator[]` read its value. -/
theorem subscript_of_find? {j value : Json} {key : String} (h : j.find? key = some value) :
    j.subscript key = .ok value := by
  cases j <;> simp [find?] at h
  simp [subscript, h]

theorem atKey_of_find? {j value : Json} {key : String} (h : j.find? key = some value) :
    j.atKey key = .ok value := by
  cases j <;> simp [find?] at h
  simp [atKey, h]

/-- An assignment changes what is found under its key and under no other. -/
theorem lookup_insertMember (key k : String) (value : Json) (members : List (String × Json)) :
    (insertMember key value members).lookup k =
      if k = key then some value else members.lookup k := by
  induction members with
  | nil =>
    by_cases h : k = key
    · simp [insertMember, h]
    · simp [insertMember, h, List.lookup_cons, beq_false_of_ne h]
  | cons m rest ih =>
    obtain ⟨l, v⟩ := m
    simp only [insertMember]
    split
    · rename_i hkl
      subst hkl
      by_cases h : k = key
      · simp [h]
      · simp [h, List.lookup_cons, beq_false_of_ne h]
    · rename_i hkl
      split
      · by_cases h : k = key
        · simp [h]
        · simp [h, List.lookup_cons, beq_false_of_ne h]
      · by_cases h : k = l
        · subst h
          simp [Ne.symm hkl]
        · simp [List.lookup_cons, beq_false_of_ne h, ih]

end Json
