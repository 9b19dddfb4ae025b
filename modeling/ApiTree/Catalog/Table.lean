import ApiTree.Fragment.Load
import ApiTree.Operation.View.Basic

/-!
# Tables of operations

A table holds the fragment of every operation for every version for which the tree has one. Versions
are tokens without inner structure, ordered by their characters, and the draft comes last. An
operation that lacks a version is resolved by its draft.
-/

set_option autoImplicit false

namespace ApiTree

/-- The fragments of operations by version. -/
abbrev OperationTable := List (OperationKey × List (String × Fields))

/-- The version that a request names; without one it is the draft. -/
def versionOrDraft (version : Option String) : String :=
  match version with
  | some v => if v = "" then draft else v
  | none => draft

/-- The versions after one and up to another, out of the given ones in order, of which the last is the
draft. A bound that is not among them bounds nothing, and the draft is in no range. -/
def versionRange (versions : List String) (after upTo : Option String) : List String :=
  let start := ((after.bind versions.idxOf?).map (· + 1)).getD 0
  let stop := (((upTo.filter (· ≠ draft)).bind versions.idxOf?).map (· + 1)).getD
    (versions.length - 1)
  (versions.take stop).drop start

namespace OperationTable

/-- The table with the content of one more file. -/
def add (table : OperationTable) (key : OperationKey) (version : String) (content : Fields) :
    OperationTable :=
  Entries.put key (Entries.put version content ((Entries.get? key table).getD [])) table

/-- The files of the tree that are operations. -/
def files (disk : Disk) (root : FilePath) (base : String) : List FilePath :=
  (Fragment.discover disk root).filter fun p => (Place.ofPath root p base).kind.isOperation

/-- The table of the operations below the root. -/
def build (disk : Disk) (root : FilePath) (base : String) : Logged OperationTable := do
  let table ← (files disk root base).foldlM
    (fun table path => do
      let f ← Fragment.load disk root base path.render
      match f.operation with
      | some key => return OperationTable.add table key f.versionToken f.content
      | none => return table) []
  Logged.log .debug "specsmith.versions"
    ("Indexed " ++ toString table.length ++ " operation(s) under " ++ root.render)
  return table

variable (table : OperationTable)

/-- The versions of operations but the draft, in order. -/
def datedVersions : List String :=
  ((table.flatMap fun e => Entries.keys e.2).filter (· ≠ draft)).eraseDups.mergeSort (· ≤ ·)

/-- Every version, the draft last. -/
def versions : List String := table.datedVersions ++ [draft]

/-- The first operation comes before the second: by path, then by method. -/
def before (k l : OperationKey) : Bool :=
  k.path < l.path || (k.path == l.path && k.method ≤ l.method)

/-- The operations in order. -/
def operations : List OperationKey := (Entries.keys table).mergeSort before

/-- The names of the operations in order. -/
def known : List String := table.operations.map (·.slug)

/-- The fragment of an operation for a version, or else its draft. -/
def resolve (key : OperationKey) (version : Option String) : Except Fault Fields :=
  let version := versionOrDraft version
  match Entries.get? key table with
  | none => .error (.unknownOperation key.slug version table.known)
  | some fragments =>
    match (Entries.get? version fragments).or (Entries.get? draft fragments) with
    | some content => .ok content
    | none =>
      .error (.unknownVersion key.slug version ((Entries.keys fragments).mergeSort (· ≤ ·)) table.known)

/-- The view of the operation that a descriptor names. -/
def view (base descriptor : String) (version : Option String) (legacyPrefixes : List String) :
    Except Fault OperationView := do
  let key := OperationKey.parse descriptor base
  return OperationView.ofFragment (← table.resolve key version) key version legacyPrefixes

end OperationTable
end ApiTree
