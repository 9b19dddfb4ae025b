import ApiTree.Operation.View.Body

/-!
# Responses and their examples

The responses of an operation, and the tests that follow from them. Every response has a master
example, which holds what is known of the response and the defaults of a test; every documented
example of the response starts from the master and writes its own values over it.
-/

set_option autoImplicit false

namespace ApiTree.OperationView

/-- What a test is made of unless the response says otherwise. -/
def exampleDefaults : Fields :=
  [("before", .seq []), ("after", .seq []), ("headers", .map []), ("let", .map []),
   ("params", .map []), ("parameters", .seq []), ("metadata", .map [])]

/-- The attributes of the operation that every test of it has. -/
def inheritedAttributes : List String := ["core-version"]

/-- The step after a test that looks at the data of the response. -/
def dataCheck : String := "validate_response_has_data"

/-- A status as text; a response may have none. -/
def statusText (status : Value) : Except Failure Value :=
  if status.isNull then .ok .null else status.toText.map .str

/-- The entries of a response that is written with the given status, completed. What is no mapping has
no entries. -/
def completeResponse (status : Value) (response : Value) : Except Failure Fields := do
  let fields : Fields :=
    match response with
    | .map entries => entries
    | _ => []
  let ifNull (key : String) (v : Value) (fields : Fields) : Fields :=
    if (Fields.getD key fields).isNull then Fields.put key v fields else fields
  let fields := ifNull "status" status fields
  let status ← statusText (Fields.getD "status" fields)
  let fields := Fields.put "status" status fields
  return ifNull "examples" (.seq []) (ifNull "description" (.str "") fields)

variable (t : OperationView)

/-- The responses of the operation, written as a mapping from status to response or as a list. -/
def responses : Except Failure (List Fields) :=
  match (t.written "responses").orElse (.map []) with
  | .map entries => entries.mapM fun (k, v) => completeResponse (.str k.text) v
  | v => do (← v.elements).mapM (completeResponse .null)

/-- The steps after a test that include the look at the data. -/
def withDataCheck (after : Value) : Except Failure Value := do
  let steps ← (after.orElse (.seq [])).elements
  return .seq (if steps.contains (.str dataCheck) then steps else steps ++ [.str dataCheck])

/-- The master example of a response, its documented examples left out. A success has data unless the
response says that it has none. -/
def masterExample (response : Fields) : Except Failure Fields := do
  let master := Entries.putAll (Fields.pick inheritedAttributes t.attributes)
    (Entries.putAll (Fields.erase "examples" response) exampleDefaults)
  let master ← expandSchema "responses" (Fields.put "master_example" (.bool true) master)
  if Fields.getD "status" master = .str "200" && Fields.getD dataCheck master ≠ .bool false then
    return Fields.put "after" (← withDataCheck (Fields.getD "after" master)) master
  else return master

/-- The entries of a master example that a documented example does not start from. -/
def masterOnly : List String := ["master_example", "focus", "skip"]

/-- A documented example that starts from a master example. -/
def documentedExample (documented master : Value) : Except Failure Fields :=
  match master, documented with
  | .map master, .map own => do
    let base := master.filter fun e => !(masterOnly.any fun key => e.1 == .str key)
    let fields := Entries.putAll (own.filter fun e => e.1 ≠ .str "description") base
    expandSchema "responses"
      (Fields.put "example_description" (Fields.getD "description" own) fields)
  | _, _ => .error .noMember

/-- The tests of a response: the master example and then the documented ones. -/
def responseExamples (response : Fields) : Except Failure (List Fields) := do
  let master ← t.masterExample response
  let documented := (Fields.getD "examples" response).toItems
  return master :: (← documented.mapM fun e => documentedExample e (.map master))

/-- The tests of the operation. -/
def examples : Except Failure (List Fields) := do
  return (← (← t.responses).mapM t.responseExamples).flatten

end ApiTree.OperationView
