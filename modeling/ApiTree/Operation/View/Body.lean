import ApiTree.Operation.View.Basic
import ApiTree.Reference.Expand
import ApiTree.Schema.Pointer

/-!
# The body of a request

The body that an operation takes, as a mapping with a schema. A schema that is a mere name refers to a
component, and the examples of that component are examples of the body.
-/

set_option autoImplicit false

namespace ApiTree.OperationView

/-- The entries with their schema expanded as the schema of a component of the given kind is. -/
def expandSchema (kind : String) (fields : Fields) : Except Failure Fields := do
  let schema ← Reference.expandAt ["components", kind, "x", "schema"] (Fields.getD "schema" fields)
  return Fields.put "schema" schema fields

variable (t : OperationView)

/-- The body of a request under JSON. A value without a schema is the schema. -/
def requestBody : Except Failure (Option Fields) :=
  let asSchema (v : Value) : Fields := [("schema", v)]
  let written? :=
    match t.written "request_body" with
    | .null => none
    | .map fields => some (if Fields.has "schema" fields then fields else asSchema (.map fields))
    | v => some (asSchema v)
  written?.mapM fun fields => do
    return Fields.putNew "examples" (.str "request_body") (← expandSchema "requestBodies" fields)

/-- The start of a reference to the body of a request. -/
def bodyPrefix : String := "#/components/requestBodies/"

/-- The end of a reference to the schema of a body under JSON. -/
def schemaSuffix : String := "/content/application~1json/schema"

/-- The name of the component whose schema under JSON the reference names. A newline at its end does
not count. -/
def bodyComponent? (reference : String) : Option String :=
  let cs := reference.toList
  let cs := if cs.getLast? = some '\n' then cs.dropLast else cs
  let name := (cs.drop bodyPrefix.length).take (cs.length - bodyPrefix.length - schemaSuffix.length)
  if cs = bodyPrefix.toList ++ name ++ schemaSuffix.toList && !name.isEmpty && !name.contains '/' then
    some (String.ofList name)
  else none

/-- The key that a segment of a reference stands for. -/
def unescape : List Char → List Char
  | '~' :: '1' :: cs => '/' :: unescape cs
  | '~' :: '0' :: cs => '~' :: unescape cs
  | c :: cs => c :: unescape cs
  | [] => []

/-- References to the examples of the component that a schema refers to. -/
def componentExamples (schema components : Value) : Except Failure Fields := do
  match schema.member? "$ref" with
  | some (.str reference) =>
    match bodyComponent? reference with
    | some name =>
      if !components.isTruthy then return []
      let missing : Value := .map []
      let bodies := (← components.lookup "requestBodies").orElse missing
      let component := (← bodies.lookup (String.ofList (unescape name.toList))).orElse missing
      let content := (← component.lookup "content").orElse missing
      let media := (← content.lookup "application/json").orElse missing
      match ← media.lookup "examples" with
      | .map examples =>
        let base := String.ofList (reference.toList.take (reference.length - "schema".length))
        return examples.map fun (k, _) =>
          (k, .reference (base ++ "examples/" ++ Pointer.escape k.text))
      | _ => return []
    | none => return []
  | _ => return []

end ApiTree.OperationView
