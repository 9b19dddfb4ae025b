import ApiTree.Text.Blank

/-!
# Arguments of a command

Taking the arguments of a command apart into options and operands. An option has a long name, written
after two hyphens, and may have a letter, written after one; letters can be written together. The value
of an option is the next argument, or follows an equals sign after the long name, or the letter
directly. After two hyphens alone everything is an operand.
-/

set_option autoImplicit false

namespace ApiTree.Command

/-- An option that a command knows. -/
structure OptionRule where
  name : String
  letter : Option Char := none
  takesValue : Bool := false
  deriving DecidableEq, Repr, Inhabited

/-- The arguments of a command taken apart: the options with their values, in order, and the rest. -/
structure Arguments where
  options : List (String × String)
  operands : List String
  deriving DecidableEq, Repr, Inhabited

namespace Arguments

/-- The option is given. -/
def has (a : Arguments) (name : String) : Bool := a.options.any fun o => o.1 == name

/-- The values of an option in order. -/
def values (a : Arguments) (name : String) : List String :=
  (a.options.filter fun o => o.1 == name).map Prod.snd

/-- The value of an option; the last one counts. -/
def value? (a : Arguments) (name : String) : Option String := (a.values name).getLast?

/-- The arguments with options before them. -/
def withOptions (options : List (String × String)) (a : Arguments) : Arguments :=
  { a with options := options ++ a.options }

/-- The arguments with an operand before them. -/
def withOperand (operand : String) (a : Arguments) : Arguments :=
  { a with operands := operand :: a.operands }

end Arguments

/-- What one argument gives: whole options, and the name of an option that still needs its value. -/
structure OptionWord where
  given : List (String × String)
  open? : Option String := none
  deriving DecidableEq, Repr, Inhabited

/-- The options that letters written together give; none when a letter is unknown. -/
def readLetters (rules : List OptionRule) : List Char → Option OptionWord
  | [] => some ⟨[], none⟩
  | c :: cs =>
    match rules.find? (·.letter == some c) with
    | none => none
    | some rule =>
      if !rule.takesValue then
        (readLetters rules cs).map fun w => { w with given := (rule.name, "") :: w.given }
      else if cs.isEmpty then some ⟨[], some rule.name⟩
      else some ⟨[(rule.name, String.ofList cs)], none⟩

/-- The option that a long name gives, with what follows an equals sign. An option that takes no value
is not followed by one. -/
def readName (rules : List OptionRule) (cs : List Char) : Option OptionWord :=
  let name := String.ofList (cs.takeWhile (· != '='))
  let value := (cs.dropWhile (· != '=')).drop 1
  match rules.find? (·.name == name) with
  | none => none
  | some rule =>
    match rule.takesValue, cs.contains '=' with
    | true, true => some ⟨[(name, String.ofList value)], none⟩
    | true, false => some ⟨[], some name⟩
    | false, true => none
    | false, false => some ⟨[(name, "")], none⟩

/-- What an argument that starts with a hyphen gives. -/
def readOption (rules : List OptionRule) (cs : List Char) : Option OptionWord :=
  match cs with
  | '-' :: '-' :: name => readName rules name
  | '-' :: letters => readLetters rules letters
  | _ => none

/-- The argument is an option: it starts with a hyphen and goes on. -/
def isOption (arg : String) : Bool := Text.startsWith arg "-" && arg != "-"

/-- Take arguments apart; none when they are no use of the options. Unless `mixed`, everything from the
first operand on is left as it is. -/
def readArguments (rules : List OptionRule) (mixed : Bool) : List String → Option Arguments
  | [] => some ⟨[], []⟩
  | arg :: rest =>
    if arg = "--" then some ⟨[], rest⟩
    else if isOption arg then
      match readOption rules arg.toList with
      | none => none
      | some ⟨given, none⟩ => (readArguments rules mixed rest).map (·.withOptions given)
      | some ⟨given, some name⟩ =>
        match rest with
        | [] => none
        | value :: rest =>
          (readArguments rules mixed rest).map (·.withOptions (given ++ [(name, value)]))
    else if mixed then (readArguments rules mixed rest).map (·.withOperand arg)
    else some ⟨[], arg :: rest⟩

end ApiTree.Command
