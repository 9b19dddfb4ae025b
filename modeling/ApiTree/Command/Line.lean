import ApiTree.Command.Argument
import ApiTree.Console.Basic

/-!
# Command lines

What a command line asks for. Options that hold for every command stand before the name of the command,
those of the command after it.
-/

set_option autoImplicit false

namespace ApiTree.Command

/-- What every command is told. -/
structure Common where
  root : Option String := none
  config : Option String := none
  format : OutputFormat := .auto
  noColour : Bool := false
  quiet : Bool := false
  verbose : Bool := false
  deriving DecidableEq, Repr, Inhabited

/-- A command with what it is told. -/
inductive Action where
  /-- Write documents; all versions if none is named. -/
  | build (output : Option String) (format : Option DocumentFormat) (versions : List String)
      (strict : Bool)
  | versions
  /-- Show an operation, or its tests. -/
  | display (operation : String) (version : Option String) (examples : Bool)
  | validate (versions : List String)
  deriving DecidableEq, Repr, Inhabited

/-- What a command line asks for. -/
inductive Request where
  /-- Nothing that can be done. -/
  | misuse
  | help
  /-- The version of the program. -/
  | programVersion
  | perform (common : Common) (action : Action)
  deriving DecidableEq, Repr, Inhabited

/-- The option that asks for help. -/
def helpRule : OptionRule := { name := "help" }

/-- The options before the name of the command. -/
def commonRules : List OptionRule :=
  [helpRule, { name := "version" }, { name := "root", letter := some 'r', takesValue := true },
   { name := "config", letter := some 'c', takesValue := true }, { name := "json" },
   { name := "plain" }, { name := "no-color" }, { name := "quiet", letter := some 'q' },
   { name := "verbose", letter := some 'v' }]

/-- The option that names a version of the API. -/
def versionRule : OptionRule := { name := "api-version", takesValue := true }

/-- The options of a command; none when there is no such command. -/
def rulesOf? : String → Option (List OptionRule)
  | "build" =>
    some [helpRule, { name := "output", letter := some 'o', takesValue := true },
      { name := "format", letter := some 'f', takesValue := true }, versionRule,
      { name := "strict" }]
  | "versions" => some [helpRule]
  | "show" => some [helpRule, versionRule, { name := "examples" }]
  | "validate" => some [helpRule, versionRule]
  | _ => none

/-- What the options before the command say. -/
def commonOf (a : Arguments) : Common :=
  { root := a.value? "root", config := a.value? "config"
    format := if a.has "json" then .json else if a.has "plain" then .plain else .auto
    noColour := a.has "no-color", quiet := a.has "quiet", verbose := a.has "verbose" }

/-- The command of a name with its options and operands; none when they do not fit it. The name of a
format is written in any case. -/
def actionOf? (command : String) (a : Arguments) : Option Action :=
  let versions := a.values "api-version"
  match command, a.operands with
  | "build", [] =>
    match a.value? "format" with
    | none => some (.build (a.value? "output") none versions (a.has "strict"))
    | some name =>
      (DocumentFormat.ofText? (Text.lower name)).map fun format =>
        .build (a.value? "output") (some format) versions (a.has "strict")
  | "versions", [] => some .versions
  | "show", [operation] => some (.display operation (a.value? "api-version") (a.has "examples"))
  | "validate", [] => some (.validate versions)
  | _, _ => none

/-- What the name of a command and the arguments after it ask for. -/
def readCommand (common : Common) : List String → Request
  | [] => .misuse
  | command :: args =>
    match (rulesOf? command).bind fun rules => readArguments rules true args with
    | none => .misuse
    | some a =>
      if a.has "help" then .help
      else
        match actionOf? command a with
        | some action => .perform common action
        | none => .misuse

/-- What a command line asks for. The first request for help or for the version comes before all
else. -/
def Request.ofArguments (args : List String) : Request :=
  match readArguments commonRules false args with
  | none => .misuse
  | some a =>
    match a.options.find? fun o => o.1 == "help" || o.1 == "version" with
    | some (name, _) => if name = "help" then .help else .programVersion
    | none => readCommand (commonOf a) a.operands

end ApiTree.Command
