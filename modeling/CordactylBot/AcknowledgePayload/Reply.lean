import CordactylBot.Dpp.Rest

/-!
What `send_acknowledgement` makes of a reply.

The code logs every shape it does not expect and goes on, so each access further in
relies on the tests before it. `readBody` follows it access by access, with the ones
that may throw in `Except`, up to the call of `process_new_messages`.

* `readBody_spec` — nothing throws, and the call is made exactly for the replies that
  list an array (`Lists`), on that array.
-/

namespace AcknowledgePayload

/-- What is logged about status and error of a reply. -/
def statusLines (response : HttpRequestCompletion) : List String :=
  if response.status = 401 then ["Acknowledge failed. Invalid API_TOKEN"]
  else if response.status ≥ 300 ∨ response.error ≠ .success then
    ["Acknowledge failed. Error: " ++ toString response.error.code ++ " Status: " ++
      toString response.status ++ "\nResponse:\n" ++ response.body]
  else []

/-- What is logged about a value that should be an object, and is neither that nor empty. -/
def objectLines (j : Json) (line : String) : List String :=
  if !j.isEmpty && !j.isObject then [line] else []

/-- A parsed body: what is logged, and what `process_new_messages` is called on. -/
def readTasks (json : Json) : Except Exception (List String × Option Json) := do
  let lines := objectLines json "acknowledge response is not an object"
  if json.contains "tasks" then
    let tasks ← json.atKey "tasks"
    let lines := lines ++ objectLines tasks "Expected tasks in acknowledge response to be an object"
    let tasks ← json.subscript "tasks"
    if tasks.contains "dm_messages" then
      let messages ← tasks.subscript "dm_messages"
      if messages.isArray then return (lines, some messages)
      else return (lines ++ ["Expected dm_messages to be an array"], none)
    else return (lines, none)
  else return (lines, none)

/-- The body of a reply. Only the exception of the parser is caught here. -/
def readBody (P : Platform) (response : HttpRequestCompletion) :
    Except Exception (List String × Option Json) :=
  if response.body = "" then .ok ([], none)
  else
    match P.parse response.body with
    | .error what =>
        .ok (["JSON parse error on acknowledge. Status: " ++ toString response.status ++
          "\nResponse:\n" ++ response.body ++ "\nException:\n" ++ what], none)
    | .ok json => readTasks json

/-! ### Which replies list messages -/

/-- `elements` is the array at `tasks.dm_messages` of the value. -/
def ListsAt (json : Json) (elements : List Json) : Prop :=
  ∃ members tasks, json = .object members ∧ members.lookup "tasks" = some (.object tasks) ∧
    tasks.lookup "dm_messages" = some (.array elements)

/-- The body parses to an object with `elements` at `tasks.dm_messages`. -/
def Lists (P : Platform) (response : HttpRequestCompletion) (elements : List Json) : Prop :=
  response.body ≠ "" ∧ ∃ json, P.parse response.body = .ok json ∧ ListsAt json elements

theorem listsAt_iff {json : Json} {elements : List Json} :
    ListsAt json elements ↔ ∃ tasks, json.find? "tasks" = some tasks ∧
      tasks.find? "dm_messages" = some (.array elements) := by
  constructor
  · rintro ⟨members, tasks, rfl, htasks, hmessages⟩
    exact ⟨_, htasks, hmessages⟩
  · rintro ⟨tasks, htasks, hmessages⟩
    obtain ⟨members, rfl⟩ := Json.isObject_iff.mp (Json.isObject_of_find? htasks)
    obtain ⟨inner, rfl⟩ := Json.isObject_iff.mp (Json.isObject_of_find? hmessages)
    exact ⟨members, inner, rfl, htasks, hmessages⟩

/-- Every access of the reading is to a member a test has found. -/
theorem readTasks_spec (json : Json) :
    ∃ lines messages, readTasks json = .ok (lines, messages) ∧
      ∀ m, messages = some m ↔ ∃ elements, m = .array elements ∧ ListsAt json elements := by
  unfold readTasks
  split
  · rename_i htasks
    obtain ⟨tasks, hfind⟩ := Json.contains_iff.mp htasks
    simp only [Json.atKey_of_find? hfind, Json.subscript_of_find? hfind, bind, Except.bind]
    split
    · rename_i hmessages
      obtain ⟨messages, hinner⟩ := Json.contains_iff.mp hmessages
      simp only [Json.subscript_of_find? hinner]
      split
      · rename_i harray
        refine ⟨_, _, rfl, fun m => ?_⟩
        obtain ⟨elements, rfl⟩ := Json.isArray_iff.mp harray
        constructor
        · rintro h
          cases h
          exact ⟨elements, rfl, listsAt_iff.mpr ⟨tasks, hfind, hinner⟩⟩
        · rintro ⟨elements', rfl, hlists⟩
          obtain ⟨tasks', hfind', hinner'⟩ := listsAt_iff.mp hlists
          rw [hfind] at hfind'
          cases hfind'
          exact hinner.symm.trans hinner'
      · rename_i harray
        refine ⟨_, _, rfl, fun m => ?_⟩
        constructor
        · exact nofun
        · rintro ⟨elements, rfl, hlists⟩
          obtain ⟨tasks', hfind', hinner'⟩ := listsAt_iff.mp hlists
          rw [hfind] at hfind'
          cases hfind'
          rw [hinner] at hinner'
          cases hinner'
          exact absurd rfl harray
    · rename_i hmessages
      refine ⟨_, _, rfl, fun m => ?_⟩
      constructor
      · exact nofun
      · rintro ⟨elements, -, hlists⟩
        obtain ⟨tasks', hfind', hinner'⟩ := listsAt_iff.mp hlists
        rw [hfind] at hfind'
        cases hfind'
        rw [Json.find?_of_not_contains hmessages] at hinner'
        cases hinner'
  · rename_i htasks
    refine ⟨_, _, rfl, fun m => ?_⟩
    constructor
    · exact nofun
    · rintro ⟨elements, -, hlists⟩
      obtain ⟨tasks', hfind', -⟩ := listsAt_iff.mp hlists
      rw [Json.find?_of_not_contains htasks] at hfind'
      cases hfind'

/-- **A reply is read without an exception**, and `process_new_messages` is called
exactly when it lists an array, on that array. -/
theorem readBody_spec (P : Platform) (response : HttpRequestCompletion) :
    ∃ lines messages, readBody P response = .ok (lines, messages) ∧
      ∀ m, messages = some m ↔ ∃ elements, m = .array elements ∧ Lists P response elements := by
  unfold readBody
  split
  · rename_i hempty
    refine ⟨_, _, rfl, fun m => ?_⟩
    constructor
    · exact nofun
    · rintro ⟨elements, -, hbody, -⟩
      exact absurd hempty hbody
  · rename_i hbody
    cases hparse : P.parse response.body with
    | error what =>
      refine ⟨_, _, rfl, fun m => ?_⟩
      constructor
      · exact nofun
      · rintro ⟨elements, -, -, json, hjson, -⟩
        rw [hparse] at hjson
        cases hjson
    | ok json =>
      obtain ⟨lines, messages, hread, hiff⟩ := readTasks_spec json
      refine ⟨lines, messages, hread, fun m => ?_⟩
      rw [hiff m]
      constructor
      · rintro ⟨elements, hm, hlists⟩
        exact ⟨elements, hm, hbody, json, hparse, hlists⟩
      · rintro ⟨elements, hm, -, json', hjson, hlists⟩
        rw [hparse] at hjson
        cases hjson
        exact ⟨elements, hm, hlists⟩

end AcknowledgePayload
