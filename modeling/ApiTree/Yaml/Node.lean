import ApiTree.Yaml.Tag
import ApiTree.Yaml.Token.Lexer

/-!
# From tokens to nodes

A node is a scalar, a sequence or a mapping with its type. `Node.ofTokens` reads the one document of
a text. Aliases are replaced by the nodes they name; an alias for a node that is not yet complete
stands inside that node and becomes `Node.enclosing`.

The reader follows the grammar of the format. Its recursion takes fuel: no chain of calls is longer
than a fixed multiple of the number of tokens.
-/

set_option autoImplicit false

namespace ApiTree.Yaml

/-- A node of a document. -/
inductive Node where
  | scalar (tag : Tag) (text : String)
  | seq (tag : Tag) (items : List Node)
  | map (tag : Tag) (entries : List (Node × Node))
  /-- The node so many levels above: 0 is the collection that the alias is an entry of. -/
  | enclosing (levels : Nat)
  deriving Repr, Inhabited

namespace Node

/-- The state of reading a document. -/
structure Reader where
  tokens : List Token
  /-- The text that each tag handle stands for. -/
  handles : List (String × String)
  /-- The node of each anchor, or its depth while it is not complete. -/
  anchors : List (String × (Node ⊕ Nat))
  deriving Inhabited

/-- Steps of reading. -/
abbrev Read := StateT Reader (Except Error)

/-- The tokens break a rule of the format. -/
def refuse {α : Type} (p : Problem) : Read α := throw (.problem p)

/-- The next token. -/
def peek : Read Token := do
  match (← get).tokens with
  | [] => refuse .layout
  | .invalid e :: _ => throw e
  | t :: _ => return t

/-- Pass the next token. -/
def drop : Read Unit := modify fun r => { r with tokens := r.tokens.tail }

/-- Pass the next token if it is the given one. -/
def accept (t : Token) : Read Bool := do
  if (← peek) = t then drop; return true else return false

/-- Pass the given token, which must be next. -/
def expect (t : Token) : Read Unit := do
  if !(← accept t) then refuse .layout

/-- The next token is one of the given ones. -/
def nextIs (ts : List Token) : Read Bool := do
  return ts.contains (← peek)

/-- A scalar where nothing is written. -/
def empty : Node := .scalar .null ""

/-- The full name of a tag as written. -/
def tagName (t : TagText) : Read String := do
  match t with
  | .verbatim s => return s
  | .handled h s =>
    match (← get).handles.lookup h with
    | some target => return target ++ s
    | none => refuse .layout

/-- Anchor and tag of a node, in either order. -/
def properties : Read (Option String × Option String) := do
  match ← peek with
  | .anchor a =>
    drop
    match ← peek with
    | .tag t => drop; return (some a, some (← tagName t))
    | _ => return (some a, none)
  | .tag t =>
    drop
    match ← peek with
    | .anchor a => drop; return (some a, some (← tagName t))
    | _ => return (none, some (← tagName t))
  | _ => return (none, none)

/-- The type of a collection with the given tag. -/
def collectionTag (standard : Tag) (tag : Option String) : Tag :=
  match tag with
  | none | some "!" => standard
  | some name => Tag.ofName name

/-- The type of a scalar: that of its text if it is plain without a tag or has the tag `!`. -/
def scalarTag (tag : Option String) (text : String) (plain : Bool) : Tag :=
  match tag with
  | none => if plain then Tag.ofPlain text.toList else .str
  | some "!" => Tag.ofPlain text.toList
  | some name => Tag.ofName name

/-- Where a node stands: which collections may start there. -/
inductive Context where
  | flow
  | block
  /-- The value or key of a block mapping, where a sequence need not be indented. -/
  | blockEntry
  deriving DecidableEq

mutual

/-- A node at the given depth. -/
def node : Nat → Context → Nat → Read Node
  | 0, _, _ => refuse .layout
  | fuel + 1, context, depth => do
    match ← peek with
    | .alias a =>
      drop
      match (← get).anchors.lookup a with
      | some (.inl n) => return n
      | some (.inr opened) => return .enclosing (depth - opened - 1)
      | none => refuse .anchor
    | _ =>
      let (anchor, tag) ← properties
      let t ← peek
      if !(t matches .scalar _ _) && anchor.isNone && tag.isNone &&
          !(t = .flowSequenceStart || t = .flowMappingStart ||
            (context ≠ .flow && (t = .blockSequenceStart || t = .blockMappingStart)) ||
            (context = .blockEntry && t = .blockEntry)) then
        refuse .layout
      match anchor with
      | some a =>
        if ((← get).anchors.lookup a).isSome then refuse .anchor
        modify fun r => { r with anchors := (a, .inr depth) :: r.anchors }
      | none => pure ()
      let n ← content fuel context depth tag
      match anchor with
      | some a => modify fun r => { r with anchors := (a, .inl n) :: r.anchors }
      | none => pure ()
      return n

/-- The content of a node after its properties. Where nothing is written it is an empty scalar. -/
def content : Nat → Context → Nat → Option String → Read Node
  | 0, _, _, _ => refuse .layout
  | fuel + 1, context, depth, tag => do
    match ← peek with
    | .scalar text plain => drop; return .scalar (scalarTag tag text plain) text
    | .flowSequenceStart =>
      drop
      return .seq (collectionTag .seq tag) (← flowItems fuel (depth + 1) true)
    | .flowMappingStart =>
      drop
      return .map (collectionTag .map tag) (← flowEntries fuel (depth + 1) true)
    | .blockSequenceStart =>
      if context = .flow then return .scalar (scalarTag tag "" true) ""
      else
        drop
        return .seq (collectionTag .seq tag) (← blockItems fuel (depth + 1))
    | .blockMappingStart =>
      if context = .flow then return .scalar (scalarTag tag "" true) ""
      else
        drop
        return .map (collectionTag .map tag) (← blockEntries fuel (depth + 1))
    | .blockEntry =>
      if context = .blockEntry then
        return .seq (collectionTag .seq tag) (← plainItems fuel (depth + 1))
      else return .scalar (scalarTag tag "" true) ""
    | _ => return .scalar (scalarTag tag "" true) ""

/-- Entries of a block sequence. -/
def blockItems : Nat → Nat → Read (List Node)
  | 0, _ => refuse .layout
  | fuel + 1, depth => do
    if ← accept .blockEntry then
      let item ←
        if ← nextIs [.blockEntry, .blockEnd] then pure empty else node fuel .block depth
      return item :: (← blockItems fuel depth)
    else
      expect .blockEnd
      return []

/-- Entries of a sequence that is not indented inside its mapping. -/
def plainItems : Nat → Nat → Read (List Node)
  | 0, _ => refuse .layout
  | fuel + 1, depth => do
    if ← accept .blockEntry then
      let item ←
        if ← nextIs [.blockEntry, .key, .value, .blockEnd] then pure empty
        else node fuel .block depth
      return item :: (← plainItems fuel depth)
    else return []

/-- Entries of a block mapping. -/
def blockEntries : Nat → Nat → Read (List (Node × Node))
  | 0, _ => refuse .layout
  | fuel + 1, depth => do
    if ← accept .key then
      let key ←
        if ← nextIs [.key, .value, .blockEnd] then pure empty else node fuel .blockEntry depth
      let value ←
        if ← accept .value then
          if ← nextIs [.key, .value, .blockEnd] then pure empty else node fuel .blockEntry depth
        else pure empty
      return (key, value) :: (← blockEntries fuel depth)
    else
      expect .blockEnd
      return []

/-- Items between square brackets. A key there is a mapping of one entry. -/
def flowItems : Nat → Nat → Bool → Read (List Node)
  | 0, _, _ => refuse .layout
  | fuel + 1, depth, first => do
    if ← accept .flowSequenceEnd then return []
    else
      if !first then expect .flowEntry
      if ← accept .flowSequenceEnd then return []
      else if ← accept .key then
        let key ←
          if ← nextIs [.value, .flowEntry, .flowSequenceEnd] then pure empty
          else node fuel .flow (depth + 1)
        let value ←
          if ← accept .value then
            if ← nextIs [.flowEntry, .flowSequenceEnd] then pure empty
            else node fuel .flow (depth + 1)
          else pure empty
        return .map .map [(key, value)] :: (← flowItems fuel depth false)
      else
        let item ← node fuel .flow depth
        return item :: (← flowItems fuel depth false)

/-- Entries between curly brackets. A node without a colon is a key without a value. -/
def flowEntries : Nat → Nat → Bool → Read (List (Node × Node))
  | 0, _, _ => refuse .layout
  | fuel + 1, depth, first => do
    if ← accept .flowMappingEnd then return []
    else
      if !first then expect .flowEntry
      if ← accept .flowMappingEnd then return []
      else if ← accept .key then
        let key ←
          if ← nextIs [.value, .flowEntry, .flowMappingEnd] then pure empty
          else node fuel .flow depth
        let value ←
          if ← accept .value then
            if ← nextIs [.flowEntry, .flowMappingEnd] then pure empty
            else node fuel .flow depth
          else pure empty
        return (key, value) :: (← flowEntries fuel depth false)
      else
        let key ← node fuel .flow depth
        return (key, empty) :: (← flowEntries fuel depth false)

end

/-- Directives before a document: the handles they declare. The version is given once at most, and
its first number is one; a handle is declared once at most. -/
def directives : Nat → Bool → List (String × String) → Read (List (String × String))
  | 0, _, _ => refuse .layout
  | fuel + 1, versioned, handles => do
    match ← peek with
    | .versionDirective major =>
      drop
      if versioned || major ≠ 1 then refuse .directive else directives fuel true handles
    | .tagDirective h target =>
      drop
      if (handles.lookup h).isSome then refuse .directive
      else directives fuel versioned (handles ++ [(h, target)])
    | .otherDirective => drop; directives fuel versioned handles
    | _ => return handles

/-- The handles of every document. -/
def standardHandles : List (String × String) := [("!", "!"), ("!!", Tag.space)]

/-- Markers of the end of a document. -/
def documentEnds : Nat → Read Unit
  | 0 => pure ()
  | fuel + 1 => do if ← accept .documentEnd then documentEnds fuel

/-- A document that starts without a marker. -/
def bareDocument (fuel : Nat) : Read Node := do
  modify fun r => { r with handles := standardHandles }
  node fuel .block 0

/-- The directives, the marker and the node of a document. -/
def markedDocument (fuel : Nat) : Read Node := do
  let handles ← directives fuel false []
  expect .documentStart
  modify fun r => { r with handles := handles ++ standardHandles }
  match ← peek with
  | .versionDirective _ | .tagDirective _ _ | .otherDirective | .documentStart | .documentEnd
  | .endOfText => return empty
  | _ => node fuel .block 0

/-- The one document of a text, if it has any. -/
def document (fuel : Nat) : Read (Option Node) := do
  match ← peek with
  | .endOfText => return none
  | .versionDirective _ | .tagDirective _ _ | .otherDirective | .documentStart =>
    let n ← markedDocument fuel
    after n
  | _ =>
    let n ← bareDocument fuel
    after n
where
  after (n : Node) : Read (Option Node) := do
    documentEnds fuel
    match ← peek with
    | .endOfText => return some n
    | .versionDirective _ | .tagDirective _ _ | .otherDirective =>
      let _ ← directives fuel false []
      expect .documentStart
      refuse .documents
    | .documentStart => refuse .documents
    | _ => refuse .layout

/-- The node of a text; none where the text holds no document. -/
def ofTokens (tokens : List Token) : Except Error (Option Node) :=
  (document (4 * tokens.length + 4)).run' ⟨tokens, [], []⟩

end Node
end ApiTree.Yaml
