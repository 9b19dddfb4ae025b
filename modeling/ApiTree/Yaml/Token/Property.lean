import ApiTree.Yaml.Cursor
import ApiTree.Yaml.Token

/-!
# Directives, anchors and tags

The tokens that do not carry content: directives before a document, and the anchors, aliases and
tags of nodes. A loop takes the characters still to be read as its fuel; each round reads one at least.
-/

set_option autoImplicit false

namespace ApiTree.Yaml.Property

/-- The text read so far breaks a rule of tokens. -/
def refuse {α : Type} : Except Error α := .error (.problem .token)

/-- A name of letters, digits, hyphens and underscores. -/
def name (c : Cursor) : Except Error (String × Cursor) :=
  let (cs, c) := c.span isNameChar
  if cs.isEmpty then refuse else .ok (String.ofList cs, c)

/-- A name of an anchor or alias, which a blank or one of a few indicators must follow. -/
def anchorName (c : Cursor) : Except Error (String × Cursor) := do
  let (n, c) ← name c.advance
  if atBlank c.peek || c.peek.any fun ch => "?:,]\x7d%@\x60".toList.contains ch then return (n, c)
  else refuse

/-- Bytes written as percent signs with two hexadecimal digits each. -/
def percentBytes : List Char → Cursor → List UInt8 → Except Error (List UInt8 × Cursor)
  | [], c, bytes => .ok (bytes, c)
  | _ :: fuel, c, bytes =>
    match c.rest with
    | '%' :: a :: b :: _ =>
      if isHexDigit a && isHexDigit b then
        percentBytes fuel (c.skip 3) (bytes ++ [UInt8.ofNat (hexNumber [a, b])])
      else refuse
    | '%' :: _ => refuse
    | _ => .ok (bytes, c)

/-- Characters of a tag, where percent signs write the bytes of a character. -/
def tagCharsFrom : List Char → Cursor → List Char → Except Error (List Char × Cursor)
  | [], c, text => .ok (text, c)
  | _ :: fuel, c, text =>
    let (run, c) := c.span fun ch => isTagChar ch && ch != '%'
    let text := text ++ run
    if c.isAt '%' then do
      let (bytes, c) ← percentBytes c.rest c []
      match String.fromUTF8? ⟨bytes.toArray⟩ with
      | some s => tagCharsFrom fuel c (text ++ s.toList)
      | none => refuse
    else .ok (text, c)

/-- Characters of a tag; one at least. -/
def tagChars (c : Cursor) : Except Error (String × Cursor) := do
  let (text, c') ← tagCharsFrom c.rest c []
  if c'.index = c.index then refuse else return (String.ofList text, c')

/-- A tag handle: an exclamation mark before a space, or a name, which may be empty, between two of
them. -/
def handle (c : Cursor) : Except Error (String × Cursor) :=
  if !c.isAt '!' then refuse
  else if c.peekAt 1 == some ' ' then .ok ("!", c.advance)
  else
    let (cs, after) := c.advance.span isNameChar
    if after.isAt '!' then .ok (String.ofList ('!' :: cs ++ ['!']), after.advance) else refuse

/-- The tag of a node. -/
def tag (c : Cursor) : Except Error (TagText × Cursor) := do
  let (t, c) ← show Except Error (TagText × Cursor) from
    if c.peekAt 1 == some '<' then do
      let (s, c) ← tagChars (c.skip 2)
      if c.isAt '>' then return (.verbatim s, c.advance) else refuse
    else if atBlank (c.peekAt 1) then .ok (.verbatim "!", c.advance)
    else do
      let word := c.rest.tail.takeWhile fun ch => !atGap (some ch)
      let (h, c) ← if word.contains '!' then handle c else .ok ("!", c.advance)
      let (s, c) ← tagChars c
      return (.handled h s, c)
  if atGap c.peek then return (t, c) else refuse

/-- Digits of a version. -/
def versionNumber (c : Cursor) : Except Error (Nat × Cursor) :=
  let (ds, c) := c.span Char.isDigit
  if ds.isEmpty then refuse
  else .ok (ds.foldl (fun n d => 10 * n + (d.toNat - 48)) 0, c)

/-- A directive up to the end of its line, on which a comment may stand. -/
def directive (c : Cursor) : Except Error (Token × Cursor) := do
  let (n, c) ← name c.advance
  if !atGap c.peek then refuse
  let (t, c) ← show Except Error (Token × Cursor) from
    if n = "YAML" then do
      let (major, c) ← versionNumber (c.skipWhile (· == ' '))
      if !c.isAt '.' then refuse
      let (_, c) ← versionNumber c.advance
      if atGap c.peek then return (.versionDirective major, c) else refuse
    else if n = "TAG" then do
      let (h, c) ← handle (c.skipWhile (· == ' '))
      if !c.isAt ' ' then refuse
      let (s, c) ← tagChars (c.skipWhile (· == ' '))
      if atGap c.peek then return (.tagDirective h s, c) else refuse
    else .ok (.otherDirective, c.skipWhile (!isBreak ·))
  let c := c.skipWhile (· == ' ')
  let c := if c.isAt '#' then c.skipWhile (!isBreak ·) else c
  if atLineEnd c.peek then return (t, c.lineBreak.2) else refuse

end ApiTree.Yaml.Property
