/-!
# Failures of elementary steps

Ways in which a single step on a value or on a file can fail. Steps that know what the user asked
for turn some of them into a `Fault` with a message; the others end the run unnamed.
-/

set_option autoImplicit false

namespace ApiTree

/-- Why a step could not be carried out. -/
inductive Failure where
  /-- The operation is not defined on this kind of value. -/
  | wrongKind
  /-- The value has no member of the name that was asked for. -/
  | noMember
  /-- The value has the right kind and denotes nothing. -/
  | badValue
  /-- A position outside a sequence was asked for. -/
  | outOfRange
  /-- A key that a table does not have was asked for. -/
  | noKey (key : String)
  /-- The bytes are not text. -/
  | notText
  /-- A file stands where a directory is needed. -/
  | fileInTheWay
  /-- A directory stands where a file is needed. -/
  | directoryInTheWay
  /-- A file stands where a path leads on. -/
  | notADirectory
  /-- Nothing is found at a path. -/
  | notFound
  /-- A value contains itself. -/
  | endless
  /-- A number exceeds every number of its kind. -/
  | tooLarge
  /-- The fields of a record do not have the types of the record. -/
  | badRecord
  deriving DecidableEq, Repr, Inhabited

end ApiTree
