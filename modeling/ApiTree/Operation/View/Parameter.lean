import ApiTree.Operation.View.Basic

/-!
# Parameters of an operation

The parameters that an operation takes, shorthands expanded: a text names a parameter component, the
schema of a parameter may be the name of a schema, and a parameter without a schema gets one from its
type. What has content is kept as it is.
-/

set_option autoImplicit false

namespace ApiTree.OperationView

/-- The schema of a parameter of which the schema is written as `schema` and the type as `type`. A
schema that is no reference and not composed gets a type. -/
def parameterSchema (schema type : Value) : Fields :=
  let fields : Fields :=
    match schema with
    | .str name => [("$ref", .str ("#/components/schemas/" ++ name))]
    | .map entries => entries
    | _ => []
  if Fields.has "$ref" fields || fields.any fun e => Text.endsWith e.1.text "Of" then fields
  else Fields.putNew "type" (type.orElse (.str "string")) fields

/-- A parameter that is written as a mapping without content. -/
def inlineParameter (fields : Fields) : Fields :=
  let fields := Fields.putNew "in" (.str "formData") fields
  let schema := parameterSchema (Fields.getD "schema" fields) (Fields.getD "type" fields)
  Fields.erase "type" (Fields.put "schema" (.map schema) fields)

/-- A parameter with its shorthands expanded. -/
def expandParameter (written : Value) : Except Failure Value :=
  match written with
  | .str name => .ok (.reference ("#/components/parameters/" ++ name))
  | v => do
    if ← v.hasElement "content" then return v
    else
      match v with
      | .map fields => return .map (inlineParameter fields)
      | _ => throw .noMember

variable (t : OperationView)

/-- The parameters of the operation. -/
def parameters : Except Failure (List Value) :=
  (t.written "parameters").toItems.mapM expandParameter

/-- The name of a parameter: its own, or the last segment of what it refers to. -/
def parameterName (parameter : Value) : Except Failure String := do
  let name ← parameter.lookup "name"
  if name.isTruthy then name.toText
  else
    let target ← ((parameter.member? "$ref").getD (.str "")).toText
    return String.ofList (Text.splitLast (· == '/') target.toList).2

/-- The names of the parameters that have one. -/
def parameterNames : Except Failure (List String) := do
  return (← (← t.parameters).mapM parameterName).filter (· ≠ "")

/-- The parameter is a part of the body of a request. -/
def isBodyParameter (parameter : Value) : Except Failure Bool := do
  let place ← parameter.lookup "in"
  return place == .str "formData" || place == .str "body"

/-- The parameters that a document lists. -/
def listedParameters : Except Failure (List Value) := do
  (← t.parameters).filterM fun p => (!·) <$> isBodyParameter p

end ApiTree.OperationView
