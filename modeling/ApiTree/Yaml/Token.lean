import ApiTree.Yaml.Error

/-!
# Tokens

The units into which the text of a document is cut. The layout of the text, its indentation and its
brackets, shows in tokens that open and close collections.
-/

set_option autoImplicit false

namespace ApiTree.Yaml

/-- A tag as written: a handle and what follows it, or the full text of the tag. -/
inductive TagText where
  | handled (handle suffix : String)
  | verbatim (text : String)
  deriving DecidableEq, Repr, Inhabited

/-- A unit of the text. -/
inductive Token where
  | versionDirective (major : Nat)
  | tagDirective (handle target : String)
  | otherDirective
  | documentStart
  | documentEnd
  | blockSequenceStart
  | blockMappingStart
  | blockEnd
  | flowSequenceStart
  | flowSequenceEnd
  | flowMappingStart
  | flowMappingEnd
  | blockEntry
  | flowEntry
  | key
  | value
  | alias (name : String)
  | anchor (name : String)
  | tag (t : TagText)
  | scalar (text : String) (plain : Bool)
  | endOfText
  /-- No token can be read from here on. -/
  | invalid (e : Error)
  deriving DecidableEq, Repr, Inhabited

end ApiTree.Yaml
