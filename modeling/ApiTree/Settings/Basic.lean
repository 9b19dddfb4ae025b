import ApiTree.Document.Format
import ApiTree.Document.Validation
import ApiTree.Disk.FilePath

/-!
# Settings

The settings of a run, and reading them from a mapping in which each may be given. A setting that is
not given has its usual value. A value of the wrong kind is refused with the reason, and every refused
setting is told.
-/

set_option autoImplicit false

namespace ApiTree

/-- The settings of a run. -/
structure Settings where
  /-- The root of the tree of files. -/
  root : FilePath := ⟨.relative, ["spec", "api"]⟩
  /-- The base path of the API, without slashes at its end. -/
  base : String := defaultBase
  /-- Only the draft is of interest. -/
  draftOnly : Bool := true
  /-- The directory into which documents are written. -/
  outputDir : FilePath := ⟨.relative, ["openapi"]⟩
  format : DocumentFormat := .json
  /-- Starts of the names of operations that need no identifier. -/
  legacyPrefixes : List String := []
  /-- Messages about violations that are not told. -/
  exclusions : List String := Document.defaultExclusions
  deriving DecidableEq, Inhabited

namespace Settings

/-- A setting as it was read: its value, or the places and reasons of what is refused. -/
abbrev Read (α : Type) := Except (List (String × SettingProblem)) α

/-- A path is written as a text. -/
def readPath (name : String) : Value → Read FilePath
  | .str s => .ok (FilePath.ofText s)
  | _ => .error [(name, .notPath)]

/-- A text. -/
def readText (name : String) : Value → Read String
  | .str s => .ok s
  | _ => .error [(name, .notText)]

/-- The truth value that a word names, in any case. -/
def flagOfWord? (word : String) : Option Bool :=
  let word := String.ofList (word.toList.map Char.toLower)
  if ["1", "true", "t", "yes", "y", "on"].contains word then some true
  else if ["0", "false", "f", "no", "n", "off"].contains word then some false
  else none

/-- The truth value that an integer names. -/
def flagOfInt? (i : Int) : Option Bool :=
  if i = 1 then some true else if i = 0 then some false else none

/-- The integer is one of 64 bits. -/
def isWord (i : Int) : Bool := -0x8000000000000000 ≤ i && i < 0x8000000000000000

/-- A truth value, or a word or number that names one. A value that can be no such name is told apart
from one that merely is none. -/
def readFlag (name : String) (v : Value) : Read Bool :=
  let named (flag : Option Bool) : Read Bool :=
    match flag with
    | some b => .ok b
    | none => .error [(name, .unknownFlag)]
  match v with
  | .bool b => .ok b
  | .str s => named (flagOfWord? s)
  | .int i => if isWord i then named (flagOfInt? i) else .error [(name, .notFlag)]
  | .float x =>
    match x.toRatio? with
    | some (n, d) =>
      if n % d = 0 && isWord (n / d) then named (flagOfInt? (n / d)) else .error [(name, .notFlag)]
    | none => .error [(name, .notFlag)]
  | _ => .error [(name, .notFlag)]

/-- A format by its name. -/
def readFormat (name : String) (v : Value) : Read DocumentFormat :=
  match v with
  | .str s =>
    match DocumentFormat.ofText? s with
    | some format => .ok format
    | none => .error [(name, .unknownFormat)]
  | _ => .error [(name, .unknownFormat)]

/-- A list of texts. Every element that is no text is told with its position. -/
def readTexts (name : String) (v : Value) : Read (List String) :=
  match v with
  | .seq items =>
    let read := items.mapIdx fun i item => readText (name ++ "." ++ toString i) item
    let problems := read.flatMap fun r =>
      match r with
      | .error problems => problems
      | .ok _ => []
    if problems.isEmpty then .ok (read.filterMap Except.toOption) else .error problems
  | _ => .error [(name, .notList)]

/-- The setting of a name, read where it is given. -/
def readField {α : Type} (name : String) (read : String → Value → Read α) (usual : α)
    (fields : Fields) : Read α :=
  match Fields.get? name fields with
  | some v => read name v
  | none => .ok usual

/-- What is refused in a setting. -/
def problems {α : Type} : Read α → List (String × SettingProblem)
  | .ok _ => []
  | .error problems => problems

/-- The settings that a mapping gives, or all that is refused, in the order of the settings. Other keys
of the mapping mean nothing. -/
def ofFields (fields : Fields) : Read Settings :=
  let usual : Settings := {}
  let root := readField "root" readPath usual.root fields
  let base := readField "prefix" readText usual.base fields
  let draftOnly := readField "draft_only" readFlag usual.draftOnly fields
  let outputDir := readField "output_dir" readPath usual.outputDir fields
  let format := readField "output_format" readFormat usual.format fields
  let legacyPrefixes := readField "legacy_prefixes" readTexts usual.legacyPrefixes fields
  let exclusions := readField "validation_exclusions" readTexts usual.exclusions fields
  match root, base, draftOnly, outputDir, format, legacyPrefixes, exclusions with
  | .ok root, .ok base, .ok draftOnly, .ok outputDir, .ok format, .ok legacyPrefixes,
      .ok exclusions =>
    .ok { root, base := trimBase base, draftOnly, outputDir, format, legacyPrefixes, exclusions }
  | _, _, _, _, _, _, _ =>
    .error (problems root ++ problems base ++ problems draftOnly ++ problems outputDir ++
      problems format ++ problems legacyPrefixes ++ problems exclusions)

end Settings
end ApiTree
