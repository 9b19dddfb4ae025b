import ApiTree.Failure

/-!
# Errors of reading YAML

A text can fail to be a document in two ways: it breaks a rule of the format, or one of its scalars
does not denote a value of the type it claims.
-/

set_option autoImplicit false

namespace ApiTree.Yaml

/-- A rule of the format that a text breaks. -/
inductive Problem where
  /-- A character that no document may hold. -/
  | unprintable
  /-- Characters that form no token. -/
  | token
  /-- Tokens that form no node. -/
  | layout
  /-- A directive that is malformed, unknown in version or given twice. -/
  | directive
  /-- An alias without its anchor, or an anchor given twice. -/
  | anchor
  /-- More than one document. -/
  | documents
  /-- A tag that is unknown or does not fit its node. -/
  | tag
  /-- A key that cannot be one. -/
  | key
  /-- A merge of something that is not a mapping. -/
  | merge
  deriving DecidableEq, Repr, Inhabited

/-- Why a text has no value. -/
inductive Error where
  | problem (p : Problem)
  | failure (f : Failure)
  deriving DecidableEq, Repr, Inhabited

end ApiTree.Yaml
