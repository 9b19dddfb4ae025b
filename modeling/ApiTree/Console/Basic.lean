import ApiTree.Catalog.Session
import ApiTree.Console.Table
import ApiTree.Json.Writer
import ApiTree.Settings.Resolve

/-!
# The console

What a command shows. Data go to the standard output in the format of the console; everything that
tells about the run goes to the standard error. A quiet console leaves out what is no warning or error,
and only a verbose one tells details.
-/

set_option autoImplicit false

namespace ApiTree

/-- A format of the standard output. -/
inductive OutputFormat where
  /-- Drawn for a terminal in colour, plain elsewhere. -/
  | auto
  | json
  | plain
  /-- Drawn for a terminal. -/
  | rich
  deriving DecidableEq, Repr, Inhabited

/-- How urgent a message is. -/
inductive MessageKind where
  | info
  | success
  | warning
  | error
  | debug
  deriving DecidableEq, Repr, Inhabited

/-- A console. -/
structure Console where
  format : OutputFormat
  quiet : Bool
  verbose : Bool
  deriving DecidableEq, Repr, Inhabited

namespace OutputFormat

/-- The format as written. -/
def render : OutputFormat → String
  | .auto => "auto"
  | .json => "json"
  | .plain => "plain"
  | .rich => "rich"

/-- The format that a text writes. -/
def ofText? (s : String) : Option OutputFormat := [auto, json, plain, rich].find? (·.render == s)

end OutputFormat

namespace Console

/-- The environment asks for no colour. -/
def isColourless (environment : Environment) : Bool :=
  (environment.lookup "NO_COLOR").isSome || environment.lookup "TERM" == some "dumb"

/-- A console of the given format; `terminal` tells that the standard output is a terminal. -/
def make (format : OutputFormat) (noColour quiet verbose terminal : Bool)
    (environment : Environment) : Console :=
  let colourless := noColour || isColourless environment
  let format :=
    match format with
    | .auto => if terminal && !colourless then .rich else .plain
    | format => format
  ⟨format, quiet, verbose⟩

/-- The text of a message, if the console shows it. -/
def message? (c : Console) (kind : MessageKind) (text : String) : Option String :=
  match kind with
  | .info | .success => if c.quiet then none else some (text ++ "\n")
  | .warning => some ("Warning: " ++ text ++ "\n")
  | .error => some ("Error: " ++ text ++ "\n")
  | .debug => if c.verbose then some ("[debug] " ++ text ++ "\n") else none

/-- A text on a line. -/
def data (text : String) : String := text ++ "\n"

/-- A value as a document. -/
def document (v : Value) : Except Failure String := (Json.render v).map data

/-- A table: records, lines with tabs, or a drawing. -/
def table (c : Console) (headers : List String) (rows : List (List String))
    (title : Option String := none) : Except Failure String :=
  match c.format with
  | .json =>
    let record (row : List String) : Value :=
      .map (Entries.ofPairs ((headers.zip row).map fun (k, v) => (.str k, .str v)))
    document (.seq (rows.map record))
  | .plain => .ok (String.join ((headers :: rows).map fun row => data (String.intercalate "\t" row)))
  | _ => .ok (drawTable headers rows title)

/-- Show a message. -/
def say (c : Console) (kind : MessageKind) (text : String) : Run Unit :=
  match c.message? kind text with
  | some text => Run.tell (.diagnostic text)
  | none => pure ()

/-- Show data. -/
def put (text : Except Failure String) : Run Unit :=
  match text with
  | .ok text => Run.tell (.output text)
  | .error f => throw (.failed f)

end Console
end ApiTree
