import ApiTree.Document.Compile

/-!
# Static parts of a version

The files that are no operations make the part of a document that does not depend on operations. The
draft is made of every file whose name is not a version; a version is made of the files that are named
after it and of the index files. Index files come first.
-/

set_option autoImplicit false

namespace ApiTree.StaticPart

/-- The file belongs to the static part of a version. -/
def belongs (root : FilePath) (version : String) (path : FilePath) : Bool :=
  if version = draft then !Place.isVersionedFile path
  else path.stem == version || (Place.isIndexFile root path && !Place.isVersionedFile path)

/-- The first file is merged before the second: index files first, then by path. -/
def before (root p q : FilePath) : Bool :=
  match Place.isIndexFile root p, Place.isIndexFile root q with
  | true, false => true
  | false, true => false
  | _, _ => p.render ≤ q.render

/-- The files of the static part of a version in the order in which they are merged. -/
def files (disk : Disk) (root : FilePath) (version : String) : List FilePath :=
  ((Fragment.discover disk root).filter fun p =>
    !Place.isOperationFile root p && belongs root version p).mergeSort (before root)

/-- The static part of the document of a version. What the files say of the version wins. -/
def document (disk : Disk) (root : FilePath) (base : String) (exclusions : List String)
    (version : String) : Logged Fields := do
  let paths := (files disk root version).map (·.render)
  let compilation ← Document.compile disk root base exclusions paths
  return Value.mergeEntries [("info", .single "version" (.str version))] compilation.document

end ApiTree.StaticPart
