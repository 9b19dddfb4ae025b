import ApiTree.Catalog.Static
import ApiTree.Catalog.Table

/-!
# Catalogs and sessions

A catalog answers questions about a tree of files. It reads the tree when it is first asked and
remembers the table of operations, the versions and the static parts that it has made, until it is
told to forget them. What fails is not remembered.

A session is a catalog at work: the disk that it reads and writes, the catalog with what it remembers,
and what it has told so far, in order.
-/

set_option autoImplicit false

namespace ApiTree

/-- A tree of files with what is remembered of it. -/
structure Catalog where
  root : FilePath
  base : String
  /-- Only the draft is of interest. -/
  draftOnly : Bool := true
  /-- Messages about violations that are not told; none stands for the usual ones. -/
  exclusions : Option (List String) := none
  table? : Option OperationTable := none
  versions? : Option (List String) := none
  statics : List (String × Fields) := []
  deriving Inhabited

namespace Catalog

/-- A catalog that remembers nothing. The base path loses the slashes at its end. -/
def make (root : FilePath) (base : String) (draftOnly : Bool := true)
    (exclusions : Option (List String) := none) : Catalog :=
  { root, base := trimBase base, draftOnly, exclusions }

/-- The catalog without what it remembers. -/
def forget (c : Catalog) : Catalog :=
  { c with table? := none, versions? := none, statics := [] }

/-- The messages that are not told when static parts are made. -/
def staticExclusions (c : Catalog) : List String :=
  c.exclusions.getD Document.defaultExclusions

end Catalog

/-- Something that a session tells. -/
inductive Event where
  | log (line : LogLine)
  /-- Text for the standard output. -/
  | output (text : String)
  /-- Text for the standard error. -/
  | diagnostic (text : String)
  deriving DecidableEq, Repr, Inhabited

/-- A catalog at work on a disk. -/
structure Session where
  disk : Disk
  catalog : Catalog
  events : List Event := []
  deriving Inhabited

/-- A step of a session; a step that fails keeps what was done before the failure. -/
abbrev Run := ExceptT Fault (StateM Session)

namespace Run

/-- Tell something. -/
def tell (e : Event) : Run Unit := modify fun s => { s with events := s.events ++ [e] }

/-- Take the log and the result of a computation into the session. -/
def ofLogged {α : Type} (m : Logged α) : Run α := do
  let (result, lines) := m.collect
  modify fun s => { s with events := s.events ++ lines.map .log }
  liftM result

/-- The catalog of the session. -/
def catalog : Run Catalog := return (← get).catalog

/-- Change the catalog of the session. -/
def modifyCatalog (f : Catalog → Catalog) : Run Unit :=
  modify fun s => { s with catalog := f s.catalog }

/-- The table of operations. -/
def table : Run OperationTable := do
  let s ← get
  match s.catalog.table? with
  | some t => return t
  | none =>
    let t ← ofLogged (OperationTable.build s.disk s.catalog.root s.catalog.base)
    modifyCatalog fun c => { c with table? := some t }
    return t

/-- Every version, the draft last. -/
def versions : Run (List String) := do
  match (← catalog).versions? with
  | some vs => return vs
  | none =>
    let vs := (← table).versions
    modifyCatalog fun c => { c with versions? := some vs }
    return vs

/-- The latest version but the draft. -/
def latest : Run String := do
  match (← versions).dropLast.getLast? with
  | some v => return v
  | none => throw (.noVersions (← catalog).root.render)

/-- The versions after one and up to another. -/
def range (after upTo : Option String) : Run (List String) :=
  return versionRange (← versions) after upTo

/-- A version that a value names, if it names one. -/
def versionOfValue (v : Value) : Option String :=
  match v with
  | .str s => some s
  | _ => none

/-- The versions against which an operation with the given metadata is run, the latest first. -/
def rangeFor (metadata : Value) : Run (List String) := do
  let metadata := metadata.orElse (.map [])
  let lookup (key : String) : Run Value := liftM ((metadata.lookup key).mapError Fault.failed)
  if (← lookup "draft").isTruthy || (← catalog).draftOnly then return [draft]
  let after ← lookup "after"
  let upTo ← lookup "until"
  return (← range (versionOfValue after) (versionOfValue upTo)).reverse

/-- The operations in order. -/
def operations : Run (List OperationKey) := return (← table).operations

/-- The fragment of an operation for a version, or else its draft. -/
def resolve (key : OperationKey) (version : Option String) : Run Fields := do
  liftM ((← table).resolve key version)

/-- The view of the operation that a descriptor names. -/
def view (descriptor : String) (version : Option String) (legacyPrefixes : List String) :
    Run OperationView := do
  let base := (← catalog).base
  liftM ((← table).view base descriptor version legacyPrefixes)

/-- The files of the static part of a version. -/
def staticFiles (version : String) : Run (List FilePath) := do
  let s ← get
  return StaticPart.files s.disk s.catalog.root version

/-- The static part of the document of a version. -/
def staticDocument (version : String) : Run Fields := do
  let s ← get
  match Entries.get? version s.catalog.statics with
  | some document => return document
  | none =>
    let c := s.catalog
    let document ←
      ofLogged (StaticPart.document s.disk c.root c.base c.staticExclusions version)
    modifyCatalog fun c => { c with statics := Entries.put version document c.statics }
    return document

/-- Forget what is remembered. -/
def clear : Run Unit := modifyCatalog Catalog.forget

/-- The disk with a file written. -/
def writeFile (path : FilePath) (text : String) : Run Unit := do
  match (← get).disk.write path text.toUTF8 with
  | .ok disk => modify fun s => { s with disk }
  | .error f => throw (.failed f)

end Run
end ApiTree
