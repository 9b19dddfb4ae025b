import ApiTree.Disk.Basic
import ApiTree.Fault
import ApiTree.Fragment.Place
import ApiTree.Text.Lines
import ApiTree.Yaml.Meaning.Node

/-!
# Loading fragments

A fragment is the content of one file of the tree with what the place of the file says. The content
is a mapping whose keys are texts at every depth that mappings and lists reach. A file that has no
such content ends the run; the text of one that is not YAML is then shown with numbered lines.
-/

set_option autoImplicit false

namespace ApiTree

/-- One file of the tree. -/
structure Fragment where
  /-- The path of the file as it was given. -/
  source : String
  content : Fields
  kind : FileKind
  component : Option ComponentKind := none
  operation : Option OperationKey := none
  version : Option String := none
  deriving DecidableEq, Inhabited

namespace Value

mutual

/-- The value with every key of a mapping as text. Lists and mappings are entered, pairs and sets are
not. -/
def withTextKeys : Value → Value
  | .map entries => .map (Entries.ofPairs (entriesWithTextKeys entries))
  | .seq items => .seq (itemsWithTextKeys items)
  | v => v

/-- The elements of a list with text keys. -/
def itemsWithTextKeys : List Value → List Value
  | [] => []
  | v :: vs => withTextKeys v :: itemsWithTextKeys vs

/-- Entries with their keys as text and values with text keys. -/
def entriesWithTextKeys : List (Value × Value) → List (Value × Value)
  | [] => []
  | (k, v) :: es => (.str k.text, withTextKeys v) :: entriesWithTextKeys es

end

/-- The value can be written as text: an integer with more digits than a numeral may have cannot. -/
def hasText : Value → Bool
  | .int i => i.natAbs < Nat.pow 10 Text.maxDigits
  | _ => true

mutual

/-- Every key that becomes text can be written so. -/
def keysHaveText : Value → Bool
  | .map entries => entryKeysHaveText entries
  | .seq items => itemKeysHaveText items
  | _ => true

/-- The keys of the elements of a list can be written as text. -/
def itemKeysHaveText : List Value → Bool
  | [] => true
  | v :: vs => keysHaveText v && itemKeysHaveText vs

/-- The keys of entries and of their values can be written as text. -/
def entryKeysHaveText : List (Value × Value) → Bool
  | [] => true
  | (k, v) :: es => k.hasText && keysHaveText v && entryKeysHaveText es

end

end Value

namespace Fragment

/-- The version of the fragment; a fragment without one is the draft, and so is an empty version. -/
def versionToken (f : Fragment) : String :=
  match f.version with
  | some v => if v = "" then draft else v
  | none => draft

/-- The start of a reference whose blank after the colon is missing. Its text would be read as a key
without a value. -/
def badReference : String := "$ref:'"

/-- The mapping that a text writes. -/
def parse (path text : String) : Except Fault Fields :=
  if Text.contains text badReference then .error (.badReference path)
  else
    match Yaml.read text.toList with
    | .error (.problem _) => .error (.badYaml path (Text.numbered text))
    | .error (.failure f) => .error (.failed f)
    | .ok ⟨.map entries, endless⟩ =>
      if endless then .error (.failed .endless)
      else if !Value.entryKeysHaveText entries then .error (.failed .badValue)
      else .ok (Entries.ofPairs (Value.entriesWithTextKeys entries))
    | .ok _ => .error (.notMapping path)

/-- The text of the bytes of a file, its line ends read as newlines. -/
def decode (bytes : ByteArray) : Except Fault String :=
  match String.fromUTF8? bytes with
  | some s => .ok (String.ofList (Text.unifyNewlines s.toList))
  | none => .error (.failed .notText)

/-- The mapping in a file. -/
def read (disk : Disk) (path : FilePath) : Except Fault Fields :=
  match disk.read path with
  | .error f => .error (.unreadable path.render (Disk.readError path f))
  | .ok bytes => do parse path.render (← decode bytes)

/-- The mapping in a file; the text of a file that is not YAML is logged. -/
def readLogged (disk : Disk) (path : FilePath) : Logged Fields :=
  match read disk path with
  | .ok entries => pure entries
  | .error f => do
    match f with
    | .badYaml path dump =>
      Logged.log .error "specsmith.compiler.loader" ("Failed to parse " ++ path ++ ":\n" ++ dump)
    | _ => pure ()
    throw f

/-- The fragment in a file of the tree. -/
def load (disk : Disk) (root : FilePath) (base path : String) : Logged Fragment := do
  let file := FilePath.ofText path
  let place := Place.ofPath root file base
  let content ← readLogged disk file
  return ⟨path, content, place.kind, place.component, place.operation, place.version⟩

/-- The files of the tree below the root, in the order of their paths as text. -/
def discover (disk : Disk) (root : FilePath) : List FilePath :=
  if disk.isDirectory root then
    ((disk.filesBelow root).filter fun p => Text.endsWith p.name ".yml").mergeSort
      fun p q => p.render ≤ q.render
  else []

end Fragment
end ApiTree
