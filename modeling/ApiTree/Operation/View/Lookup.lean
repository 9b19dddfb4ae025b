import ApiTree.Operation.View.Rendered

/-!
# Looking up what a view shows

A view can be asked by name. The names of what it computes come before those of its attributes.
-/

set_option autoImplicit false

namespace ApiTree.OperationView

variable (t : OperationView)

/-- What the view computes under a name. -/
def computed? (name : String) : Option (Except Fault Value) :=
  let failing (r : Except Failure Value) : Except Fault Value := r.mapError .failed
  let texts (v? : Option String) : Value := .ofOption (v?.map .str)
  let maps (rows : List Fields) : Value := .seq (rows.map .map)
  match name with
  | "operation" => some (.ok t.operation)
  | "api_version" => some (.ok t.apiVersion)
  | "http_method" => some (.ok t.httpMethod)
  | "path" => some (.ok t.path)
  | "before" => some (failing (t.before.map .seq))
  | "after" => some (failing (t.after.map .seq))
  | "let" => some (failing (t.lets.map .map))
  | "params" => some (failing (t.params.map .map))
  | "consumes" => some (.ok (.seq t.consumes))
  | "produces" => some (.ok (.str produces))
  | "parameters" => some (failing (t.parameters.map .seq))
  | "request_body_json" => some (failing (t.requestBody.map fun b => .ofOption (b.map .map)))
  | "security" => some (.ok .null)
  | "operationId" | "id" => some (t.operationId.map texts)
  | "summary" => some (.ok (t.written "summary"))
  | "tags" => some (failing (t.tags.map .str))
  | "responses" => some (failing (t.responses.map maps))
  | "examples" => some (failing (t.examples.map maps))
  | _ => none

/-- What the view computes under a name, its attribute of that name, or the given value. Only what can
be a key can be a name. -/
def get (name : Value) (otherwise : Value := .null) : Except Fault Value :=
  match name with
  | .str name =>
    match t.computed? name with
    | some answer => answer
    | none => .ok ((Fields.get? name t.attributes).getD otherwise)
  | name => if name.isKey then .ok otherwise else .error (.failed .wrongKind)

/-- The view computes something under the name or has an attribute of that name. -/
def has (name : Value) : Except Fault Bool :=
  match name with
  | .str name => .ok ((t.computed? name).isSome || Fields.has name t.attributes)
  | name => if name.isKey then .ok false else .error (.failed .wrongKind)

/-- What the view has under a name that it must have. -/
def item (name : Value) : Except Fault Value := do
  if ← t.has name then t.get name else throw (.failed (.noKey name.text))

end ApiTree.OperationView
