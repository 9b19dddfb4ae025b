import ApiTree.Schema.Basic

/-!
# Schemas as values

A schema written as a mapping with one entry for each keyword, the form in which a message shows it.
-/

set_option autoImplicit false

namespace ApiTree

mutual

/-- The entries that write a keyword. -/
def Keyword.fields : Keyword → Fields
  | .kind k => [("type", .str k.render)]
  | .required names => [("required", .seq (names.map .str))]
  | .properties entries => [("properties", .map (propertyFields entries))]
  | .patterns entries => [("patternProperties", .map (patternFields entries))]
  | .closed => [("additionalProperties", .bool false)]
  | .others schema => [("additionalProperties", .map (keywordFields schema))]
  | .items schema => [("items", .map (keywordFields schema))]
  | .allOf schemas => [("allOf", .seq (schemaValues schemas))]
  | .oneOf schemas => [("oneOf", .seq (schemaValues schemas))]
  | .never schema => [("not", .map (keywordFields schema))]
  | .values allowed => [("enum", .seq allowed)]
  | .pattern p => [("pattern", .str p.render)]
  | .minimum bound exclusive =>
    ("minimum", .int bound) :: if exclusive then [("exclusiveMinimum", .bool true)] else []
  | .minItems bound => [("minItems", .int bound)]
  | .minProperties bound => [("minProperties", .int bound)]
  | .maxProperties bound => [("maxProperties", .int bound)]
  | .uniqueItems => [("uniqueItems", .bool true)]
  | .ref name => [("$ref", .str ("#/definitions/" ++ name))]
  | .note name value => [(.str name, value)]

/-- The entries that write the keywords in order. -/
def keywordFields : List Keyword → Fields
  | [] => []
  | k :: ks => k.fields ++ keywordFields ks

/-- The entries that write the schemas of keys. -/
def propertyFields : List (String × List Keyword) → Fields
  | [] => []
  | (name, schema) :: es => (.str name, .map (keywordFields schema)) :: propertyFields es

/-- The entries that write the schemas of patterns of keys. -/
def patternFields : List (Pattern × List Keyword) → Fields
  | [] => []
  | (p, schema) :: es => (.str p.render, .map (keywordFields schema)) :: patternFields es

/-- The values that write the schemas of a list. -/
def schemaValues : List (List Keyword) → List Value
  | [] => []
  | schema :: rest => .map (keywordFields schema) :: schemaValues rest

end

namespace Schema

/-- The schema as a value. -/
def toValue (schema : Schema) : Value := .map (keywordFields schema)

end Schema
end ApiTree
