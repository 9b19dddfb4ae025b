import ApiTree.Fragment.Load
import ApiTree.Reference.Expand
import ApiTree.Value.Merge

/-!
# From a fragment to a part of the document

What a fragment contributes to the document: entries of components get their schema and examples
under the JSON media type, operations get their identifier and the schemas of their responses by
name, the whole is put where the place of the file says, and shorthand names are expanded.
-/

set_option autoImplicit false

namespace ApiTree.Fragment

/-- The media type of JSON. -/
def jsonMedia : String := "application/json"

/-- An entry of a component with its flat `schema` and `examples`, as far as they are not null,
merged into its content under JSON. The content must be a mapping if it holds anything. -/
def nestContent (entry : Fields) : Except Failure Fields :=
  let flat := Fields.pick ["schema", "examples"] entry
  if flat.isEmpty then .ok entry
  else
    let media := flat.filter fun e => !e.2.isNull
    let rest := Fields.erase "examples" (Fields.erase "schema" entry)
    let content := Fields.getD "content" rest
    match if content.isTruthy then content else .map [] with
    | .map content =>
      .ok (Fields.put "content"
        (.map (Value.mergeEntries content [(.str jsonMedia, .map media)])) rest)
    | _ => .error .noMember

/-- The content of a fragment with the entries of components nested. -/
def withContent (f : Fragment) : Except Failure Fields :=
  if f.kind = .component then
    f.content.mapM fun (k, v) =>
      match v with
      | .map entry => do return (k, .map (← nestContent entry))
      | v => .ok (k, v)
  else .ok f.content

/-- A response whose schema is a mere name, with a reference to the schema of that name. -/
def nameSchema (response : Value) : Value :=
  match response with
  | .map entries =>
    match Fields.get? "schema" entries with
    | some (.str name) =>
      .map (Fields.put "schema" (Value.reference ("#/components/schemas/" ++ name)) entries)
    | _ => response
  | _ => response

/-- The entries of an operation with its identifier under its full name and the schemas of its
responses by reference. Other fragments stay as they are. -/
def withOperation (f : Fragment) (data : Fields) : Fields :=
  if f.kind.isOperation then
    let data :=
      match Fields.get? "id" data with
      | some id =>
        if Fields.has "operationId" data then data
        else Fields.put "operationId" id (Fields.erase "id" data)
      | none => data
    match Fields.get? "responses" data with
    | some (.map responses) =>
      Fields.put "responses" (.map (responses.map fun (k, v) => (k, nameSchema v))) data
    | some (.seq responses) => Fields.put "responses" (.seq (responses.map nameSchema)) data
    | _ => data
  else data

/-- The entries put where the fragment belongs in the document. -/
def wrapped (f : Fragment) (data : Fields) : Fields :=
  match f.operation with
  | some key => [("paths", .single key.path (.single key.method (.map data)))]
  | none =>
    match f.kind, f.component with
    | .component, some kind => [("components", .single kind.render (.map data))]
    | _, _ => data

/-- What the fragment contributes before shorthand names are expanded. -/
def unexpanded (f : Fragment) : Except Failure Fields :=
  (withContent f).map fun data => wrapped f (withOperation f data)

/-- What the fragment contributes to the document. -/
def transform (f : Fragment) : Except Failure Fields := do
  Reference.expandEntries [] (← unexpanded f)

end ApiTree.Fragment
