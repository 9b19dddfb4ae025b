import ApiTree.Proofs.Yaml.Cursor
import ApiTree.Yaml.Token.Lexer
import Mathlib

/-!
# Which texts have no tokens

The lexer stops where the text breaks a rule of tokens. It stops with a failure in one case only: at
an escape in double quotes whose number names no character (`hasEscape_of_mem_ofText`). Each
function of the lexer keeps its cursor inside the text, and none but the reader of escapes fails.
-/

set_option autoImplicit false

namespace ApiTree.Yaml

variable {text : List Char} {c : Cursor}

/-- A reading ends with a cursor in the text. -/
abbrev EndsWithin {α : Type} (text : List Char) (r : Except Error (α × Cursor)) : Prop :=
  Ends text (fun p => p.2.Within text) r

theorem EndsWithin.bind {α β : Type} {P : β → Prop} {r : Except Error (α × Cursor)}
    {next : α × Cursor → Except Error β} (hr : EndsWithin text r)
    (hnext : ∀ p : α × Cursor, p.2.Within text → Ends text P (next p)) :
    Ends text P (r >>= next) := Ends.bind hr hnext

/-! ## Directives, anchors and tags -/

namespace Property

theorem endsWithin_name (h : c.Within text) : EndsWithin text (name c) := by
  rw [name]
  dsimp only
  split
  · trivial
  · exact h.span _

theorem endsWithin_anchorName (h : c.Within text) : EndsWithin text (anchorName c) := by
  rw [anchorName]
  apply (endsWithin_name h.advance).bind
  intro p hp
  dsimp only
  split
  · exact hp
  · trivial

theorem endsWithin_percentBytes (h : c.Within text) (fuel : List Char) (bytes : List UInt8) :
    EndsWithin text (percentBytes fuel c bytes) := by
  induction fuel generalizing c bytes with
  | nil => exact h
  -- the fuel only bounds the number of turns; each of them moves the cursor forward
  | cons x fuel ih =>
    rw [percentBytes]
    split
    · split
      · exact ih (h.skip 3) _
      · trivial
    · trivial
    · exact h

theorem endsWithin_tagCharsFrom (h : c.Within text) (fuel read : List Char) :
    EndsWithin text (tagCharsFrom fuel c read) := by
  induction fuel generalizing c read with
  | nil => exact h
  | cons x fuel ih =>
    rw [tagCharsFrom]
    dsimp only
    split
    · apply (endsWithin_percentBytes (h.span _) _ _).bind
      intro p hp
      split
      · exact ih hp _
      · trivial
    · exact h.span _

theorem endsWithin_tagChars (h : c.Within text) : EndsWithin text (tagChars c) := by
  rw [tagChars]
  apply (endsWithin_tagCharsFrom h _ _).bind
  intro p hp
  dsimp only
  split
  · trivial
  · exact hp

theorem endsWithin_handle (h : c.Within text) : EndsWithin text (handle c) := by
  rw [handle]
  split
  · trivial
  · split
    · exact h.advance
    · dsimp only
      split
      · exact (h.advance.span _).advance
      · trivial

/-- What follows the handle of a tag. -/
theorem endsWithin_handled (h : c.Within text) (name : String) : EndsWithin text (do
    let (s, c) ← tagChars c
    return (TagText.handled name s, c)) :=
  (endsWithin_tagChars h).bind fun _ hp => hp

theorem endsWithin_tag (h : c.Within text) : EndsWithin text (tag c) := by
  rw [tag]
  -- a tag is read in two parts: what it says, in one of three spellings, and the blank after it
  refine EndsWithin.bind ?_ fun p hp => ?_
  · split
    · apply (endsWithin_tagChars (h.skip 2)).bind
      intro p hp
      dsimp only
      split
      · exact hp.advance
      · trivial
    · split
      · exact h.advance
      · dsimp only
        split
        · exact (endsWithin_handle h).bind fun p hp => endsWithin_handled hp p.1
        · exact endsWithin_handled h.advance _
  · dsimp only
    split
    · exact hp
    · trivial

theorem endsWithin_versionNumber (h : c.Within text) : EndsWithin text (versionNumber c) := by
  rw [versionNumber]
  dsimp only
  split
  · trivial
  · exact h.span _

/-- A token that carries text, read with the cursor in the text. -/
def IsToken (text : List Char) (p : Token × Cursor) : Prop :=
  p.2.Within text ∧ ∀ e, p.1 ≠ .invalid e

theorem ends_directive (h : c.Within text) : Ends text (IsToken text) (directive c) := by
  rw [directive]
  apply (endsWithin_name h.advance).bind
  intro p hp
  dsimp only
  split
  · trivial
  -- the directive itself first, then the rest of its line
  refine Ends.bind (P := IsToken text) ?_ fun q hq => ?_
  · split
    · apply (endsWithin_versionNumber (hp.skipWhile _)).bind
      intro q hq
      split
      · trivial
      apply (endsWithin_versionNumber hq.advance).bind
      intro q hq
      split
      · exact ⟨hq, by simp⟩
      · trivial
    · split
      · apply (endsWithin_handle (hp.skipWhile _)).bind
        intro q hq
        split
        · trivial
        apply (endsWithin_tagChars (hq.skipWhile _)).bind
        intro q hq
        split
        · exact ⟨hq, by simp⟩
        · trivial
      · exact ⟨hp.skipWhile _, by simp⟩
  · have hgap := hq.1.skipWhile (· == ' ')
    split
    · split
      · exact ⟨(hgap.skipWhile _).lineBreak, hq.2⟩
      · trivial
    · split
      · exact ⟨hgap.lineBreak, hq.2⟩
      · trivial

end Property

/-! ## Scalars -/

namespace Scalar

theorem within_plainBreaks (h : c.Within text) (fuel breaks : List Char) :
    (plainBreaks fuel c breaks).2.Within text := by
  induction fuel generalizing c breaks with
  | nil => exact h
  | cons x fuel ih =>
    rw [plainBreaks]
    split
    · exact ih h.advance _
    · split
      · dsimp only
        split
        · exact h.lineBreak
        · exact ih h.lineBreak _
      · exact h

theorem within_plainGap (h : c.Within text) : (plainGap c).2.1.Within text := by
  rw [plainGap]
  dsimp only
  split
  · split
    · exact (h.span _).lineBreak
    · have hbreaks := within_plainBreaks (h.span (· == ' ')).lineBreak
        ((c.span (· == ' ')).2.lineBreak.2.rest) []
      split
      · rename_i heq
        rwa [heq] at hbreaks
      · rename_i heq
        rwa [heq] at hbreaks
  · exact h.span _

theorem within_plainFrom (h : c.Within text) (flow : Bool) (indent : Int)
    (fuel read gap : List Char) (broken : Bool) :
    (plainFrom flow indent fuel c read gap broken).2.1.Within text := by
  induction fuel generalizing c read gap broken with
  | nil => exact h
  | cons x fuel ih =>
    rw [plainFrom]
    generalize (if c.isAt '#' then 0 else plainRun flow c.rest) = length
    dsimp only
    split
    · exact h
    · have hgap := within_plainGap (h.skip length)
      split
      · exact hgap
      · exact ih hgap _ _ _

theorem within_plain (h : c.Within text) (flow : Bool) (indent : Int) :
    (plain flow indent c).2.1.Within text :=
  within_plainFrom h flow indent _ _ _ _

theorem hexValue_lt {c : Char} (h : isHexDigit c = true) : hexValue c < 16 := by
  -- characters are compared by their numbers, so that `omega` can take over
  have hle (a : Char) : a ≤ c ↔ a.toNat ≤ c.toNat := Iff.rfl
  have hge (a : Char) : c ≤ a ↔ c.toNat ≤ a.toNat := Iff.rfl
  simp only [isHexDigit, Char.isDigit_iff_toNat, Bool.or_eq_true, Bool.and_eq_true,
    decide_eq_true_eq, hle, hge] at h
  rw [hexValue]
  simp only [Char.isDigit_iff_toNat, hle]
  have h0 : '0'.toNat = 48 := rfl
  have h9 : '9'.toNat = 57 := rfl
  have ha : 'a'.toNat = 97 := rfl
  have hf : 'f'.toNat = 102 := rfl
  have hA : 'A'.toNat = 65 := rfl
  have hF : 'F'.toNat = 70 := rfl
  split <;> [skip; split] <;> omega

/-- A number of hexadecimal digits is less than the power of sixteen with as many zeros. -/
theorem hexNumber_lt {ds : List Char} (h : ds.all isHexDigit = true) :
    hexNumber ds < 16 ^ ds.length := by
  -- the bound must hold for any number the fold starts from
  have hfold (n : Nat) :
      ds.foldl (fun n d => 16 * n + hexValue d) n < (n + 1) * 16 ^ ds.length := by
    induction ds generalizing n with
    | nil => simp
    | cons d ds ih =>
      simp only [List.all_cons, Bool.and_eq_true] at h
      have hd := hexValue_lt h.1
      have hstep : 16 * n + hexValue d + 1 ≤ (n + 1) * 16 := by omega
      calc ds.foldl (fun n d => 16 * n + hexValue d) (16 * n + hexValue d)
          < (16 * n + hexValue d + 1) * 16 ^ ds.length := ih h.2 _
        _ ≤ (n + 1) * 16 * 16 ^ ds.length := Nat.mul_le_mul_right _ hstep
        _ = (n + 1) * 16 ^ (ds.length + 1) := by rw [Nat.pow_succ, Nat.mul_assoc, Nat.mul_comm 16]
  simpa [hexNumber] using hfold 0

/-- Only the longest escape can name no character. -/
theorem ends_charOfCode {e : Char} {length : Nat} {code after : List Char}
    (hlength : codeLength? e = some length) (hcode : code.length = length)
    (hhex : code.all isHexDigit = true) (htext : '\\' :: e :: (code ++ after) <:+ text) :
    Ends text (fun _ => True) (charOfCode (hexNumber code)) := by
  by_cases hchar : hexNumber code < 0x110000
  · rw [charOfCode, if_pos hchar]
    trivial
  · have hlt := hexNumber_lt hhex
    -- two or four digits stay below the last character; only eight can pass it
    obtain ⟨rfl, rfl⟩ : e = 'U' ∧ length = 8 := by
      simp only [codeLength?, List.lookup] at hlength
      split at hlength
      · obtain rfl := Option.some.inj hlength
        simp only [hcode] at hlt
        omega
      · split at hlength
        · obtain rfl := Option.some.inj hlength
          simp only [hcode] at hlt
          omega
        · split at hlength
          · rename_i heq
            exact ⟨beq_iff_eq.mp heq, (Option.some.inj hlength).symm⟩
          · cases hlength
    have hescape (f : Failure)
        (hf : f = if hexNumber code < 0x80000000 then .badValue else .tooLarge) :
        HasEscape text f :=
      HasEscape.of_suffix ⟨[], code, after, rfl, hcode, hhex, Nat.le_of_not_lt hchar, hf⟩ htext
    rw [charOfCode, if_neg hchar]
    split
    · rename_i hsmall
      exact hescape _ (if_pos hsmall).symm
    · rename_i hlarge
      exact hescape _ (if_neg hlarge).symm

theorem endsWithin_quotedBreaks (h : c.Within text) (fuel breaks : List Char) :
    EndsWithin text (quotedBreaks fuel c breaks) := by
  induction fuel generalizing c breaks with
  | nil => exact h
  | cons x fuel ih =>
    rw [quotedBreaks]
    split
    · trivial
    · dsimp only
      split
      · exact ih (h.skipWhile _).lineBreak _
      · exact h.skipWhile _

theorem endsWithin_quotedGap (h : c.Within text) : EndsWithin text (quotedGap c) := by
  rw [quotedGap]
  dsimp only
  split
  · trivial
  · split
    · exact (endsWithin_quotedBreaks (h.span _).lineBreak _ _).bind fun p hp => hp
    · exact h.span _

theorem endsWithin_quotedRun (h : c.Within text) (double : Bool) (fuel read : List Char) :
    EndsWithin text (quotedRun double fuel c read) := by
  induction fuel generalizing c read with
  | nil => exact h
  | cons x fuel ih =>
    rw [quotedRun]
    dsimp only
    have hspan := h.span fun ch => !(ch = '\x27' || ch = '"' || ch = '\\' || atBlank (some ch))
    split
    · rename_i ch after hrest
      split
      · exact ih (hspan.skip 2) _
      · split
        · exact ih hspan.advance _
        · split
          · rename_i hslash
            split
            · trivial
            · rename_i e digits _
              split
              · exact ih hspan.advance.advance _
              · rename_i length _ hlength
                split
                · rename_i hcode
                  simp only [Bool.and_eq_true, decide_eq_true_eq] at hslash hcode
                  -- the escape stands in the text where the run of plain characters ended
                  have htext :
                      '\\' :: e :: (digits.take length ++ digits.drop length) <:+ text := by
                    rw [List.take_append_drop, ← hslash.2, ← hrest]
                    exact hspan
                  exact (ends_charOfCode hlength hcode.1 hcode.2 htext).bind fun r _ =>
                    ih (hspan.advance.skip _) _
                · trivial
              · split
                · have hbreaks := endsWithin_quotedBreaks hspan.advance.lineBreak
                  exact (hbreaks _ _).bind fun p hp => ih hp _
                · trivial
          · exact hspan
    · exact hspan

theorem endsWithin_quotedFrom (h : c.Within text) (double : Bool) (fuel read : List Char) :
    EndsWithin text (quotedFrom double fuel c read) := by
  induction fuel generalizing c read with
  | nil => trivial
  | cons x fuel ih =>
    rw [quotedFrom]
    apply (endsWithin_quotedRun h double _ _).bind
    intro p hp
    generalize (if double then '"' else '\x27') = quote
    dsimp only
    split
    · exact hp.advance
    · exact (endsWithin_quotedGap hp).bind fun q hq => ih hq _

theorem endsWithin_quoted (h : c.Within text) (double : Bool) :
    EndsWithin text (quoted double c) :=
  endsWithin_quotedFrom h.advance double _ _

theorem within_indicator {α : Type} (h : c.Within text) (meaning : Char → Option α) :
    (indicator meaning c).2.Within text := by
  rw [indicator]
  split
  · exact h.advance
  · exact h

theorem ends_headerEnd (h : c.Within text) : Ends text (·.Within text) (headerEnd c) := by
  have hgap := h.skipWhile (· == ' ')
  rw [headerEnd]
  split
  · trivial
  · dsimp only
    split
    · split
      · trivial
      · exact (hgap.skipWhile _).lineBreak
    · split
      · trivial
      · exact hgap.lineBreak

theorem ends_blockHeader (h : c.Within text) :
    Ends text (fun p => p.2.2.Within text) (blockHeader c) := by
  have hindent := within_indicator (within_indicator h chomping?) indentation?
  rw [blockHeader]
  dsimp only
  split
  · trivial
  · split
    · exact (ends_headerEnd (within_indicator hindent _)).bind fun c hc => hc
    · exact (ends_headerEnd hindent).bind fun c hc => hc

theorem within_blockIndentation (h : c.Within text) (fuel breaks : List Char) (widest : Nat) :
    (blockIndentation fuel c breaks widest).2.2.Within text := by
  induction fuel generalizing c breaks widest with
  | nil => exact h
  | cons x fuel ih =>
    rw [blockIndentation]
    dsimp only
    split
    · exact ih h.advance _ _
    · split
      · exact ih h.lineBreak _ _
      · exact h

theorem within_blockMargin (h : c.Within text) (indent fuel : Nat) :
    (blockMargin indent fuel c).Within text := by
  induction fuel generalizing c with
  | zero => exact h
  | succ fuel ih =>
    rw [blockMargin]
    split
    · exact ih h.advance
    · exact h

theorem within_blockBreaks (h : c.Within text) (indent : Nat) (fuel breaks : List Char) :
    (blockBreaks indent fuel c breaks).2.Within text := by
  induction fuel generalizing c breaks with
  | nil => exact h
  | cons x fuel ih =>
    have hmargin := within_blockMargin h indent indent
    rw [blockBreaks]
    dsimp only
    split
    · exact ih hmargin.lineBreak _
    · exact hmargin

theorem within_blockLines (h : c.Within text) (folded : Bool) (indent : Nat)
    (fuel read last breaks : List Char) :
    (blockLines folded indent fuel c read last breaks).2.2.2.Within text := by
  induction fuel generalizing c read last breaks with
  | nil => exact h
  | cons x fuel ih =>
    rw [blockLines]
    dsimp only
    split
    · have hbreaks := within_blockBreaks (h.span (!isBreak ·)).lineBreak indent
        (c.span (!isBreak ·)).2.lineBreak.2.rest []
      split
      · exact ih hbreaks _ _ _
      · exact hbreaks
    · exact h

theorem endsWithin_block (h : c.Within text) (folded : Bool) (parent : Int) :
    EndsWithin text (block folded parent c) := by
  rw [block]
  apply (ends_blockHeader h.advance).bind
  intro p hp
  -- the header fixes the indentation, or the first line that is not blank does
  obtain ⟨chomping, explicit, c⟩ := p
  cases explicit with
  | some n => exact within_blockLines (within_blockBreaks hp _ _ _) _ _ _ _ _ _
  | none => exact within_blockLines (within_blockIndentation hp _ _ _) _ _ _ _ _ _

end Scalar

/-! ## The lexer -/

namespace Lexer

/-- The lexer stands in the text and has read tokens only. -/
structure Sound (text : List Char) (l : Lexer) : Prop where
  within : l.cursor.Within text
  valid : ∀ e, Token.invalid e ∉ l.tokens

variable {l : Lexer} {t : Token}

theorem valid_cons {ts : List Token} (h : ∀ e, Token.invalid e ∉ ts) (ht : ∀ e, t ≠ .invalid e) :
    ∀ e, Token.invalid e ∉ t :: ts := fun e hmem =>
  (List.mem_cons.mp hmem).elim (fun heq => ht e heq.symm) (h e)

theorem Sound.allowing (h : l.Sound text) (b : Bool) : Sound text { l with allowKey := b } :=
  ⟨h.within, h.valid⟩

theorem Sound.push (h : l.Sound text) (ht : ∀ e, t ≠ .invalid e) : (l.push t).Sound text :=
  ⟨h.within, valid_cons h.valid ht⟩

theorem Sound.take (h : l.Sound text) (ht : ∀ e, t ≠ .invalid e) (width : Nat) :
    (l.take t width).Sound text :=
  ⟨h.within.skip _, valid_cons h.valid ht⟩

theorem Sound.insertAt (h : l.Sound text) (ht : ∀ e, t ≠ .invalid e) (number : Nat) :
    (l.insertAt number t).Sound text := by
  -- a key is marked after the fact, before a token that is already read
  refine ⟨h.within, fun e hmem => ?_⟩
  rcases List.eq_or_mem_of_mem_insertIdx hmem with heq | hmem
  · exact ht e heq.symm
  · exact h.valid e hmem

theorem Sound.openBlock (h : l.Sound text) (ht : ∀ e, t ≠ .invalid e) (column before : Nat) :
    (l.openBlock column before t).Sound text := by
  rw [Lexer.openBlock]
  split
  · exact ⟨h.within, (h.insertAt ht before).valid⟩
  · exact h

theorem Sound.closeBlocks (h : l.Sound text) (column : Int) :
    (l.closeBlocks column).Sound text := by
  have hgo (l : Lexer) (h : l.Sound text) (outers : List Int) :
      (closeBlocks.go column l outers).Sound text := by
    induction outers generalizing l with
    | nil => exact h
    | cons outer rest ih =>
      rw [closeBlocks.go]
      split
      · exact ih _ ⟨h.within, valid_cons h.valid (by simp)⟩
      · exact h
  rw [Lexer.closeBlocks]
  split
  · exact h
  · exact hgo l h _

theorem Sound.skipGap (h : l.Sound text) : l.skipGap.Sound text := by
  have hgo (fuel : List Char) (l : Lexer) (h : l.Sound text) : (skipGap.go fuel l).Sound text := by
    induction fuel generalizing l with
    | nil => exact h
    | cons x fuel ih =>
      have hgap := (h.within.skipWhile (· == ' ')).skipComment
      rw [skipGap.go]
      -- name the cursor after the comment; the two branches differ only in it
      generalize (if (l.cursor.skipWhile (· == ' ')).isAt '#' then
        (l.cursor.skipWhile (· == ' ')).skipWhile (!isBreak ·)
        else l.cursor.skipWhile (· == ' ')) = c at hgap ⊢
      split
      · exact ih _ ⟨hgap.lineBreak, h.valid⟩
      · exact ⟨hgap, h.valid⟩
  rw [Lexer.skipGap]
  split
  · exact hgo _ _ ⟨h.within.advance, h.valid⟩
  · exact hgo _ _ h

/-- A step of the lexer reads on in the text, breaks a rule, or meets an escape that names no
character. -/
abbrev Reads (text : List Char) (r : Except Error Lexer) : Prop := Ends text (·.Sound text) r

theorem reads_dropStaleKeys (h : l.Sound text) : Reads text l.dropStaleKeys := by
  rw [dropStaleKeys]
  split
  · trivial
  · exact ⟨h.within, h.valid⟩

theorem reads_dropKey (h : l.Sound text) : Reads text l.dropKey := by
  rw [dropKey]
  split
  · split
    · trivial
    · exact ⟨h.within, h.valid⟩
  · exact h

theorem reads_noteKey (h : l.Sound text) : Reads text l.noteKey := by
  rw [noteKey]
  split
  · exact (reads_dropKey h).bind fun l h => ⟨h.within, h.valid⟩
  · exact h

theorem reads_finish (h : l.Sound text) : Reads text l.finish := by
  rw [finish]
  exact (reads_dropKey (h.closeBlocks _)).bind fun l h =>
    ⟨h.within, valid_cons h.valid (by simp)⟩

theorem reads_directive (h : l.Sound text) : Reads text l.directive := by
  rw [directive]
  apply (reads_dropKey (h.closeBlocks _)).bind
  intro l h
  exact (Property.ends_directive h.within).bind fun p hp => ⟨hp.1, valid_cons h.valid hp.2⟩

theorem reads_marker (h : l.Sound text) (ht : ∀ e, t ≠ .invalid e) : Reads text (l.marker t) := by
  rw [marker]
  apply (reads_dropKey (h.closeBlocks _)).bind
  intro l h
  exact ⟨h.within.skip _, (h.push ht).valid⟩

theorem reads_openFlow (h : l.Sound text) (ht : ∀ e, t ≠ .invalid e) :
    Reads text (l.openFlow t) := by
  rw [openFlow]
  exact (reads_noteKey h).bind fun l h => ⟨h.within.skip _, (h.push ht).valid⟩

theorem reads_closeFlow (h : l.Sound text) (ht : ∀ e, t ≠ .invalid e) :
    Reads text (l.closeFlow t) := by
  rw [closeFlow]
  exact (reads_dropKey h).bind fun l h => ⟨h.within.skip _, (h.push ht).valid⟩

/-- An indicator that may need a block to be opened before it. -/
theorem reads_indicator (h : l.Sound text) {allowKey : Bool} (ht : ∀ e, t ≠ .invalid e) :
    Reads text (do
      let l ← { l with allowKey := allowKey }.dropKey
      return l.take t 1) := by
  apply (reads_dropKey (h.allowing allowKey)).bind
  intro l h
  exact ⟨h.within.skip _, valid_cons h.valid ht⟩

theorem reads_flowEntry (h : l.Sound text) : Reads text l.flowEntry :=
  reads_indicator h (by simp)

theorem reads_blockEntry (h : l.Sound text) : Reads text l.blockEntry := by
  rw [blockEntry]
  split
  · exact reads_indicator h (by simp)
  · split
    · exact reads_indicator (h.openBlock (by simp) _ _) (by simp)
    · trivial

theorem reads_explicitKey (h : l.Sound text) : Reads text l.explicitKey := by
  rw [explicitKey]
  split
  · exact reads_indicator h (by simp)
  · split
    · exact reads_indicator (h.openBlock (by simp) _ _) (by simp)
    · trivial

theorem reads_value (h : l.Sound text) : Reads text l.value := by
  rw [value]
  split
  · rename_i k _
    have hkeys : Sound text { l with keys := l.keys.filter (·.1 != l.flow) } :=
      ⟨h.within, h.valid⟩
    have hkey := hkeys.insertAt (t := .key) (by simp) k.number
    dsimp only
    split
    · have hblock := hkey.openBlock (t := .blockMappingStart) (by simp) k.column k.number
      exact ⟨hblock.within.skip _, valid_cons hblock.valid (by simp)⟩
    · exact ⟨hkey.within.skip _, valid_cons hkey.valid (by simp)⟩
  · split
    · exact reads_indicator h (by simp)
    · split
      · exact reads_indicator (h.openBlock (by simp) _ _) (by simp)
      · trivial

theorem reads_property (h : l.Sound text) {read : Cursor → Except Error (Token × Cursor)}
    (hread : ∀ c : Cursor, c.Within text → Ends text (Property.IsToken text) (read c)) :
    Reads text (l.property read) := by
  rw [property]
  apply (reads_noteKey h).bind
  intro l h
  exact (hread _ h.within).bind fun p hp => ⟨hp.1, valid_cons h.valid hp.2⟩

/-- An anchor or an alias. -/
theorem reads_named (h : l.Sound text) {token : String → Token}
    (htoken : ∀ n e, token n ≠ .invalid e) :
    Reads text (l.property fun c => do
      let (n, c) ← Property.anchorName c
      return (token n, c)) :=
  reads_property h fun _ hc => (Property.endsWithin_anchorName hc).bind fun p hp => ⟨hp, htoken p.1⟩

theorem reads_blockScalar (h : l.Sound text) (folded : Bool) :
    Reads text (l.blockScalar folded) := by
  rw [blockScalar]
  apply (reads_dropKey (h.allowing true)).bind
  intro l h
  exact (Scalar.endsWithin_block h.within _ _).bind fun p hp =>
    ⟨hp, valid_cons h.valid (by simp)⟩

theorem reads_quotedScalar (h : l.Sound text) (double : Bool) :
    Reads text (l.quotedScalar double) := by
  rw [quotedScalar]
  apply (reads_noteKey h).bind
  intro l h
  exact (Scalar.endsWithin_quoted h.within _).bind fun p hp => ⟨hp, valid_cons h.valid (by simp)⟩

theorem reads_plainScalar (h : l.Sound text) : Reads text l.plainScalar := by
  rw [plainScalar]
  apply (reads_noteKey h).bind
  intro l h
  exact ⟨Scalar.within_plain h.within _ _, valid_cons h.valid (by simp)⟩

theorem reads_step (h : l.Sound text) : Reads text l.step := by
  rw [step]
  apply (reads_dropStaleKeys h.skipGap).bind
  intro l h
  -- every branch below starts from the lexer with the deeper blocks closed
  replace h := h.closeBlocks l.cursor.column
  dsimp only
  split
  · exact reads_finish h
  -- one branch for each kind of token, in the order in which they are tried
  · refine .ite (reads_directive h) ?_
    refine .ite (reads_marker h (by simp)) ?_
    refine .ite (reads_marker h (by simp)) ?_
    refine .ite (reads_openFlow h (by simp)) ?_
    refine .ite (reads_openFlow h (by simp)) ?_
    refine .ite (reads_closeFlow h (by simp)) ?_
    refine .ite (reads_closeFlow h (by simp)) ?_
    refine .ite (reads_flowEntry h) ?_
    refine .ite (reads_blockEntry h) ?_
    refine .ite (reads_explicitKey h) ?_
    refine .ite (reads_value h) ?_
    refine .ite (reads_named h (by simp)) ?_
    refine .ite (reads_named h (by simp)) ?_
    refine .ite (reads_property h fun c hc => (Property.endsWithin_tag hc).bind fun p hp => ?_) ?_
    · exact ⟨hp, by simp⟩
    refine .ite (reads_blockScalar h false) ?_
    refine .ite (reads_blockScalar h true) ?_
    refine .ite (reads_quotedScalar h false) ?_
    refine .ite (reads_quotedScalar h true) ?_
    exact .ite (reads_plainScalar h) trivial

/-- Reading stops with a failure only at an escape that names no character. -/
theorem hasEscape_of_mem_run {f : Failure} (fuel : Nat) (h : l.Sound text)
    (hf : .invalid (.failure f) ∈ run fuel l) : HasEscape text f := by
  induction fuel generalizing l with
  | zero => exact absurd (List.mem_reverse.mp hf) (h.valid _)
  | succ fuel ih =>
    have hstep := reads_step h
    rw [run] at hf
    -- only the last token can be an error: a step that ends well adds tokens that are read
    cases hl : l.step with
    | error e =>
      rw [hl] at hf hstep
      rcases List.mem_cons.mp (List.mem_reverse.mp hf) with heq | hmem
      · cases heq
        exact hstep
      · exact absurd hmem (h.valid _)
    | ok l' =>
      rw [hl] at hf hstep
      dsimp only at hf
      split at hf
      · exact absurd (List.mem_reverse.mp hf) (hstep.valid _)
      · exact ih hstep hf

end Lexer

/-- The tokens of a text end with a failure only at an escape that names no character. -/
theorem hasEscape_of_mem_ofText {text : List Char} {f : Failure}
    (h : .invalid (.failure f) ∈ Token.ofText text) : HasEscape text f :=
  have hstart : (Lexer.start text).Sound text := ⟨List.suffix_rfl, by simp [Lexer.start]⟩
  Lexer.hasEscape_of_mem_run _ hstart h

end ApiTree.Yaml
