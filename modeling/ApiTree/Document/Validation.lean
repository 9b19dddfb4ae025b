import ApiTree.Schema.OpenApi

/-!
# Validating documents

The messages about everything in a document that the format does not allow, in the order of the places
in the document, those at one place in the order of the schema. Messages that are known to be wrong
can be excluded by their exact text.
-/

set_option autoImplicit false

namespace ApiTree.Document

/-- The messages that are excluded unless others are given. -/
def defaultExclusions : List String :=
  ["The property '#/components/parameters/core.custom_field_value_params' " ++
    "of type object did not match any of the required schemas"]

/-- Everything in a document that the format does not allow, in the order of the places. -/
def violations (document : Value) : List Violation :=
  (Schema.check OpenApi.definitions OpenApi.document document).mergeSort Violation.before

/-- The messages about the violations of a document, without the excluded ones. -/
def validate (document : Value) (exclusions : List String := defaultExclusions) : List String :=
  ((violations document).map (·.message)).filter (!exclusions.contains ·)

end ApiTree.Document
