import ApiTree.Fragment.Load
import ApiTree.Json.Writer
import ApiTree.Yaml.Writer

/-!
# Formats of documents

The text of a document in the two formats in which documents are written. Values that JSON does not
have are written as texts in both.
-/

set_option autoImplicit false

namespace ApiTree

/-- A format in which documents are written. -/
inductive DocumentFormat where
  | json
  | yaml
  deriving DecidableEq, Repr, Inhabited

namespace DocumentFormat

/-- The format as settings and file names write it. -/
def render : DocumentFormat → String
  | .json => "json"
  | .yaml => "yaml"

/-- The format that a text writes. -/
def ofText? (s : String) : Option DocumentFormat := [json, yaml].find? (·.render == s)

/-- The value that is written: values of JSON only, and each key once. -/
def plain (v : Value) : Except Failure Value := (Json.plain v).map Value.withTextKeys

/-- The text of a value. -/
def write (format : DocumentFormat) (v : Value) : Except Failure String :=
  match format with
  | .json => (Json.render v).map (· ++ "\n")
  | .yaml => (plain v).map Yaml.render

end DocumentFormat
end ApiTree
