import ApiTree.Operation.View.Parameter
import ApiTree.Operation.View.Response

/-!
# Operations in a document

What a document says about an operation: its identifier and texts, the parameters outside the body,
the body under each media type that the operation takes, and its responses by status.
-/

set_option autoImplicit false

namespace ApiTree.OperationView

/-- An entry with a value that is not empty; none for an empty value. -/
def entryIfAny (key : String) (v : Value) : Fields :=
  if v.isTruthy then [(.str key, v)] else []

/-- A mapping from media types to one body. Two media types that are one key are written once. -/
def contentOf (types : List Value) (media : Value) : Except Failure Fields := do
  let entries ← types.mapM fun type => if type.isKey then .ok (type, media) else .error .wrongKind
  return Entries.ofPairsBy Value.sameKey entries

/-- The response that a master example describes. -/
def renderedResponse (master : Fields) : Value :=
  let description := (Fields.getD "description" master).orElse (.str "")
  let content : Fields :=
    match Fields.getD "schema" master with
    | .null => []
    | schema => [("content", .single produces (.single "schema" schema))]
  .map (("description", description) :: content)

/-- The responses by status that the master examples among tests describe. -/
def renderedResponses (examples : List Fields) : Except Failure Fields := do
  let masters := examples.filter fun e => (Fields.getD "master_example" e).isTruthy
  let entries ← masters.mapM fun e =>
    let status := (Fields.getD "status" e).orElse (.str "default")
    if status.isKey then .ok (status, renderedResponse e) else .error .wrongKind
  return Entries.ofPairsBy Value.sameKey entries

variable (t : OperationView)

/-- The body of a request as the document describes it. -/
def renderedBody (body : Fields) (components : Value) : Except Failure Value := do
  let schema := Fields.getD "schema" body
  let examples ← componentExamples schema components
  let content ← contentOf t.consumes
    (.map (("schema", schema) :: entryIfAny "examples" (.map examples)))
  let required := (Fields.get? "required" body).getD (.bool true)
  return .map (("content", .map content) :: ("required", required) ::
    entryIfAny "description" (Fields.getD "description" body))

/-- What a document with the given components says about the operation. -/
def rendered (components : Value := .null) : Except Fault Fields := do
  let id ← t.operationId
  let failing {α : Type} (r : Except Failure α) : Except Fault α := r.mapError .failed
  let texts := (Fields.pick ["summary", "description", "deprecated"] t.attributes).filter
    fun e => !e.2.isNull
  let tags ← failing t.tagNames
  let parameters ← failing t.listedParameters
  let body ← failing t.requestBody
  let body ← failing (body.mapM fun body => t.renderedBody body components)
  let responses ← failing (do renderedResponses (← t.examples))
  return entryIfAny "operationId" (.ofOption (id.map .str)) ++ texts ++
    entryIfAny "tags" (.seq (tags.map .str)) ++ entryIfAny "parameters" (.seq parameters) ++
    entryIfAny "requestBody" (.ofOption body) ++ Fields.put "responses" (.map responses) []

end ApiTree.OperationView
