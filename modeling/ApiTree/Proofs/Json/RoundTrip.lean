import ApiTree.Json.Reader
import ApiTree.Json.Writer
import ApiTree.Proofs.Fragment.TextKeys
import ApiTree.Proofs.Text.Numeral

/-!
# Texts that are read back

A value of JSON that is written is read back as it was, with its members in their order. Each part
of it is read back from any text that starts with what was written for it, if what follows ends the
part (`Reads`); so the parts are read one after the other as they were written. Only an integer with
more digits than a numeral may have would not be read (`IsJson.readText_write`).
-/

set_option autoImplicit false

namespace ApiTree.Json

/-- A value made of null, truth values, integers, texts, lists and mappings with text keys, each key
once. -/
inductive IsJson : Value → Prop
  | null : IsJson .null
  | bool (b : Bool) : IsJson (.bool b)
  | int (i : Int) : IsJson (.int i)
  | str (s : String) : IsJson (.str s)
  | seq {items : List Value} (hitems : ∀ v ∈ items, IsJson v) : IsJson (.seq items)
  | map {entries : Fields} (hkeys : ∀ e ∈ entries, e.1.isStr) (honce : (Entries.keys entries).Nodup)
      (hvalues : ∀ e ∈ entries, IsJson e.2) : IsJson (.map entries)

/-- No integer in the value has more digits than a numeral may have. -/
def HasShortIntegers (v : Value) : Prop :=
  ∀ i, Value.Within (.int i) v → (Nat.toDigits 10 i.natAbs).length ≤ Text.maxDigits

theorem exists_of_isStr {k : Value} (h : k.isStr = true) : ∃ key, k = .str key := by
  cases k with
  | str key => exact ⟨key, rfl⟩
  | _ => cases h

/-! ## Integers in values -/

theorem hasShortIntegers_seq_iff {items : List Value} :
    HasShortIntegers (.seq items) ↔ ∀ v ∈ items, HasShortIntegers v := by
  constructor
  · intro h v hv i hi
    exact h i (.item hv hi)
  · intro h i hi
    cases hi with
    | item hv hi => exact h _ hv i hi

theorem hasShortIntegers_map_iff {entries : Fields} (hkeys : ∀ e ∈ entries, e.1.isStr) :
    HasShortIntegers (.map entries) ↔ ∀ e ∈ entries, HasShortIntegers e.2 := by
  constructor
  · intro h e he i hi
    exact h i (.value he hi)
  · intro h i hi
    cases hi with
    | value he hi => exact h _ he i hi
    | key he hi =>
      -- a key is a text, and no integer is in it
      obtain ⟨key, rfl⟩ := exists_of_isStr (hkeys _ he)
      cases hi

/-! ## Texts -/

theorem charOfUnit_of_lt {unit : Nat} (h : unit < 0xD800) : charOfUnit unit = Char.ofNat unit :=
  if_neg (by omega)

/-- A code unit that is no half of a pair stands for its character, whatever follows it. -/
theorem readString_unit {a b c d : Char} {unit : Nat} (h : hexQuad? a b c d = some unit)
    (hunit : unit < 0xD800) (cs : List Char) :
    readString ('\\' :: 'u' :: a :: b :: c :: d :: cs) =
      (readString cs).map fun p => (Char.ofNat unit :: p.1, p.2) := by
  have hpair (o : Option Nat) : o.bind (charOfPair? unit) = none := by
    cases o with
    | none => rfl
    | some low => exact if_neg (by omega)
  rw [readString.eq_def, ← charOfUnit_of_lt hunit]
  split
  · next heq => cases heq
  · next heq => cases heq
  · next heq =>
    -- another unit follows, and the two are no pair
    simp only [List.cons.injEq, true_and] at heq
    obtain ⟨rfl, rfl, rfl, rfl, rfl⟩ := heq
    simp only [h, hpair]
  · next heq =>
    simp only [List.cons.injEq, true_and] at heq
    obtain ⟨rfl, rfl, rfl, rfl, rfl⟩ := heq
    simp only [h]
  · next hno heq =>
    simp only [List.cons.injEq, true_and] at heq
    obtain ⟨rfl, rfl⟩ := heq
    exact absurd rfl (hno _ _ _ _ _ rfl)
  · next hno heq =>
    simp only [List.cons.injEq] at heq
    obtain ⟨rfl, rfl⟩ := heq
    exact absurd rfl (hno _ _ rfl)

/-- The digits that are written for a control character are read as its code. -/
theorem hexQuad?_hexDigits {n : Nat} (h : n < 32) : ∃ a b c d,
    Text.hexDigits 4 n = [a, b, c, d] ∧ hexQuad? a b c d = some n := by
  refine ⟨_, _, _, _, rfl, ?_⟩
  interval_cases n <;> rfl

/-- A backslash and the letter of a character stand for the character. -/
theorem readString_unescape {letter c : Char} (h : unescape? letter = some c)
    (hletter : letter ≠ 'u') (cs : List Char) :
    readString ('\\' :: letter :: cs) = (readString cs).map fun p => (c :: p.1, p.2) := by
  rw [readString.eq_def]
  split
  case h_6 hno heq =>
    obtain ⟨rfl, rfl⟩ := List.cons.inj heq
    exact absurd rfl (hno _ _ rfl)
  all_goals simp_all

/-- What is written for a character is read as the character. -/
theorem readString_escape (c : Char) (rest : List Char) :
    readString (escape c ++ rest) = (readString rest).map fun p => (c :: p.1, p.2) := by
  unfold escape
  iterate 7
    split
    · subst c
      exact readString_unescape rfl (by decide) rest
  split
  · next hcontrol =>
    obtain ⟨x, y, z, w, hdigits, hquad⟩ := hexQuad?_hexDigits hcontrol
    have hunit := readString_unit hquad (by omega) rest
    rw [Char.ofNat_toNat] at hunit
    rw [hdigits]
    exact hunit
  · next hquote hbackslash _ _ _ _ _ hcontrol =>
    rw [List.singleton_append, readString.eq_def]
    split <;> simp_all

/-- A text that is written in quotes is read up to the closing quote. -/
theorem readString_flatMap_escape (cs rest : List Char) :
    readString (cs.flatMap escape ++ '"' :: rest) = some (cs, rest) := by
  induction cs with
  | nil => simp [readString]
  | cons c cs ih =>
    rw [List.flatMap_cons, List.append_assoc, readString_escape, ih]
    rfl

/-! ## Words and numbers -/

/-- What follows a value ends it: a comma or a line break. -/
def EndsValue (rest : List Char) : Prop := ∃ c cs, rest = c :: cs ∧ (c = ',' ∨ c = '\n')

theorem endsValue_comma (cs : List Char) : EndsValue (',' :: cs) := ⟨',', cs, rfl, .inl rfl⟩

theorem endsValue_newline (level : Nat) (cs : List Char) : EndsValue (newline level ++ cs) :=
  ⟨'\n', _, rfl, .inr rfl⟩

theorem afterWord?_append (word : String) (rest : List Char) :
    afterWord? word (word.toList ++ rest) = some rest := by
  rw [afterWord?, if_pos (by simp), ← String.length_toList, List.drop_left]

theorem afterWord?_eq_none {word : String} {cs : List Char} (h : ¬ word.toList <+: cs) :
    afterWord? word cs = none := by
  rw [afterWord?, if_neg]
  rwa [List.isPrefixOf_iff_prefix]

/-- A text that starts with none of the letters of the words is a number. -/
theorem readAtom_of_not_mem {c : Char} {cs : List Char} (hletter : c ∉ ['n', 't', 'f', 'N', 'I'])
    (hinfinity : ¬ "-Infinity".toList <+: c :: cs) : readAtom (c :: cs) = readNumber (c :: cs) := by
  have hword (word : String)
      (hfirst : ∃ w ws, word.toList = w :: ws ∧ w ∈ ['n', 't', 'f', 'N', 'I']) :
      afterWord? word (c :: cs) = none := by
    obtain ⟨w, ws, hcs, hw⟩ := hfirst
    apply afterWord?_eq_none
    rw [hcs, List.cons_prefix_cons]
    rintro ⟨rfl, -⟩
    exact hletter hw
  rw [readAtom, hword "null" ⟨_, _, rfl, by decide⟩, hword "true" ⟨_, _, rfl, by decide⟩,
    hword "false" ⟨_, _, rfl, by decide⟩, hword "NaN" ⟨_, _, rfl, by decide⟩,
    hword "Infinity" ⟨_, _, rfl, by decide⟩, afterWord?_eq_none hinfinity]

/-- The digits of a number are all the digits there are before the end of the value. -/
theorem wholeDigits_toDigits (n : Nat) {rest : List Char} (h : EndsValue rest) :
    wholeDigits (Nat.toDigits 10 n ++ rest) = Nat.toDigits 10 n := by
  obtain ⟨c, cs, rfl, hc⟩ := h
  have hend : c.isDigit = false := by
    rcases hc with rfl | rfl
    · rfl
    · rfl
  rcases Nat.eq_zero_or_pos n with rfl | hpos
  · rfl
  · have hzero := Text.head?_toDigits_ne_zero hpos
    unfold wholeDigits
    split
    · next heq =>
      rw [← List.head?_append_of_ne_nil _ Nat.toDigits_ne_nil, heq] at hzero
      exact absurd rfl hzero
    · rw [List.takeWhile_append_of_pos Text.isDigit_of_mem_toDigits,
        List.takeWhile_cons_of_neg (by simp [hend]), List.append_nil]

/-- Neither a fraction nor an exponent follows where the value ends. -/
theorem noFraction_of_endsValue {rest : List Char} (h : EndsValue rest) :
    fractionPart rest = [] ∧ exponentPart rest = [] := by
  obtain ⟨c, cs, rfl, rfl | rfl⟩ := h
  · exact ⟨rfl, rfl⟩
  · exact ⟨rfl, rfl⟩

theorem exists_cons_toDigits (n : Nat) : ∃ d ds, Nat.toDigits 10 n = d :: ds ∧ d.isDigit := by
  obtain ⟨d, ds, hds⟩ := List.exists_cons_of_ne_nil (Nat.toDigits_ne_nil (n := n) (b := 10))
  exact ⟨d, ds, hds, Text.isDigit_of_mem_toDigits d (hds ▸ List.mem_cons_self)⟩

/-- The sign of a number and its digits. -/
def numeral (negative : Bool) (n : Nat) : List Char :=
  if negative then '-' :: Nat.toDigits 10 n else Nat.toDigits 10 n

theorem toString_eq_numeral (i : Int) :
    (toString i).toList = numeral (decide (i < 0)) i.natAbs := by
  rw [Int.toString_eq_repr]
  cases i with
  | ofNat n =>
    rw [Int.repr, Nat.repr_eq_ofList_toDigits, String.toList_ofList]
    rfl
  | negSucc n =>
    rw [Int.repr, Nat.repr_eq_ofList_toDigits, String.toList_append, String.toList_ofList,
      String.toList_ofList, numeral, decide_eq_true (Int.negSucc_lt_zero n), if_pos rfl]
    rfl

/-- A number is none of the words. -/
theorem readAtom_numeral (negative : Bool) (n : Nat) (rest : List Char) :
    readAtom (numeral negative n ++ rest) = readNumber (numeral negative n ++ rest) := by
  obtain ⟨d, ds, hds, hdigit⟩ := exists_cons_toDigits n
  cases negative with
  | true =>
    apply readAtom_of_not_mem (by decide)
    rw [hds]
    intro h
    have hsecond : 'I' = d := (List.cons_prefix_cons.mp (List.cons_prefix_cons.mp h).2).1
    rw [← hsecond] at hdigit
    cases hdigit
  | false =>
    rw [numeral, if_neg Bool.false_ne_true, hds]
    apply readAtom_of_not_mem
    · intro hmem
      fin_cases hmem <;> cases hdigit
    · intro h
      rw [← (List.cons_prefix_cons.mp h).1] at hdigit
      cases hdigit

theorem readNumber_numeral (negative : Bool) {n : Nat} {rest : List Char}
    (hshort : (Nat.toDigits 10 n).length ≤ Text.maxDigits) (hrest : EndsValue rest) :
    readNumber (numeral negative n ++ rest) =
      .ok (.int (if negative then -(n : Int) else n), rest) := by
  have hwhole := wholeDigits_toDigits n hrest
  have hafter : (Nat.toDigits 10 n ++ rest).drop (Nat.toDigits 10 n).length = rest := List.drop_left
  obtain ⟨hfraction, hexponent⟩ := noFraction_of_endsValue hrest
  unfold readNumber
  split
  next negative' body hsplit =>
    obtain ⟨rfl, rfl⟩ : negative' = negative ∧ body = Nat.toDigits 10 n ++ rest := by
      cases negative with
      | true =>
        obtain ⟨rfl, rfl⟩ := Prod.mk.inj hsplit
        exact ⟨rfl, rfl⟩
      | false =>
        obtain ⟨d, ds, hds, hdigit⟩ := exists_cons_toDigits n
        rw [numeral, if_neg Bool.false_ne_true, hds] at hsplit
        split at hsplit
        · next heq =>
          obtain ⟨rfl, -⟩ := List.cons.inj heq
          cases hdigit
        · obtain ⟨rfl, rfl⟩ := Prod.mk.inj hsplit
          exact ⟨rfl, by rw [hds]⟩
    have hlong : ¬ (Nat.toDigits 10 n).length > Text.maxDigits := Nat.not_lt.mpr hshort
    simp [hwhole, hafter, hfraction, hexponent, Text.naturalIn?_toDigits, hlong,
      Nat.toDigits_ne_nil]

/-- A number that may be written is read back. -/
theorem readAtom_int {i : Int} {rest : List Char}
    (h : (Nat.toDigits 10 i.natAbs).length ≤ Text.maxDigits) (hrest : EndsValue rest) :
    readAtom ((toString i).toList ++ rest) = .ok (.int i, rest) := by
  have hsign : (if decide (i < 0) then -(i.natAbs : Int) else i.natAbs) = i := by
    split
    · next hneg => rw [decide_eq_true_eq] at hneg; omega
    · next hneg => rw [decide_eq_true_eq] at hneg; omega
  rw [toString_eq_numeral, readAtom_numeral, readNumber_numeral _ h hrest, hsign]

/-! ## Values -/

/-- A character that starts a value: no blank and no end of a list or mapping. -/
def StartsValue (c : Char) : Prop := c ∉ [' ', '\t', '\n', '\r', ']', '\x7d']

instance : DecidablePred StartsValue := fun c =>
  inferInstanceAs (Decidable (c ∉ [' ', '\t', '\n', '\r', ']', '\x7d']))

/-- What was written for the value is read as the value, and what follows is left. -/
structure Reads (v : Value) : Prop where
  starts : ∀ level, ∃ c cs, write level v = c :: cs ∧ StartsValue c
  back : ∀ {level fuel rest}, EndsValue rest → (write level v).length ≤ fuel →
    readValue fuel (write level v ++ rest) = .ok (v, rest)

theorem skipBlanks_cons {c : Char} (h : c ∉ [' ', '\t', '\n', '\r']) (cs : List Char) :
    skipBlanks (c :: cs) = c :: cs := by
  apply List.dropWhile_cons_of_neg
  simp only [List.mem_cons, not_or] at h
  simp [h]

/-- The blanks that start a line are skipped. -/
theorem skipBlanks_newline (level : Nat) (cs : List Char) :
    skipBlanks (newline level ++ cs) = skipBlanks cs := by
  apply List.dropWhile_append_of_pos
  intro c hc
  rcases List.mem_cons.mp hc with rfl | hc
  · rfl
  · rw [(List.mem_replicate.mp hc).2]
    rfl

theorem Reads.skipBlanks_write {v : Value} (h : Reads v) (level : Nat) (rest : List Char) :
    skipBlanks (write level v ++ rest) = write level v ++ rest := by
  obtain ⟨c, cs, hwrite, hc⟩ := h.starts level
  rw [hwrite]
  apply skipBlanks_cons
  intro hmem
  exact hc (List.mem_append_left [']', '\x7d'] hmem)

theorem quote_append (s : String) (rest : List Char) :
    quote s ++ rest = '"' :: (s.toList.flatMap escape ++ '"' :: rest) := by
  rw [quote, List.cons_append, List.append_assoc]
  rfl

theorem readValue_quote (s : String) (fuel : Nat) (rest : List Char) :
    readValue (fuel + 1) (quote s ++ rest) = .ok (.str s, rest) := by
  rw [quote_append, readValue, readString_flatMap_escape]
  simp only [String.ofList_toList]

theorem reads_str (s : String) : Reads (.str s) where
  starts level := ⟨'"', _, rfl, by decide⟩
  back {level fuel rest} _ hfuel := by
    cases fuel with
    | zero => cases hfuel
    | succ fuel => exact readValue_quote s fuel rest

/-- A word or number is read where no text, list or mapping starts. -/
theorem readValue_atom {c : Char} {cs : List Char} (h : c ∉ ['"', '[', '\x7b']) (fuel : Nat) :
    readValue (fuel + 1) (c :: cs) = readAtom (c :: cs) := by
  simp only [List.mem_cons, not_or] at h
  rw [readValue.eq_def]
  split <;> simp_all

theorem reads_of_readAtom {v : Value}
    (hstarts : ∀ level, ∃ c cs, write level v = c :: cs ∧ StartsValue c ∧ c ∉ ['"', '[', '\x7b'])
    (hback : ∀ {level rest}, EndsValue rest → readAtom (write level v ++ rest) = .ok (v, rest)) :
    Reads v where
  starts level := by
    obtain ⟨c, cs, hwrite, hc, -⟩ := hstarts level
    exact ⟨c, cs, hwrite, hc⟩
  back {level fuel rest} hrest hfuel := by
    obtain ⟨c, cs, hwrite, -, hc⟩ := hstarts level
    rw [← hback hrest, hwrite]
    rw [hwrite] at hfuel
    cases fuel with
    | zero => cases hfuel
    | succ fuel => exact readValue_atom hc fuel

theorem reads_null : Reads .null := by
  apply reads_of_readAtom (fun level => ⟨'n', _, rfl, by decide, by decide⟩)
  intro level rest hrest
  have hwrite : write level .null = "null".toList := rfl
  rw [hwrite, readAtom, afterWord?_append]

theorem reads_bool (b : Bool) : Reads (.bool b) := by
  cases b with
  | true =>
    apply reads_of_readAtom (fun level => ⟨'t', _, rfl, by decide, by decide⟩)
    intro level rest hrest
    have hwrite : write level (.bool true) = "true".toList := rfl
    have hnull : afterWord? "null" ("true".toList ++ rest) = none := rfl
    rw [hwrite, readAtom, hnull, afterWord?_append]
  | false =>
    apply reads_of_readAtom (fun level => ⟨'f', _, rfl, by decide, by decide⟩)
    intro level rest hrest
    have hwrite : write level (.bool false) = "false".toList := rfl
    have hnull : afterWord? "null" ("false".toList ++ rest) = none := rfl
    have htrue : afterWord? "true" ("false".toList ++ rest) = none := rfl
    rw [hwrite, readAtom, hnull, htrue, afterWord?_append]

theorem reads_int {i : Int} (h : (Nat.toDigits 10 i.natAbs).length ≤ Text.maxDigits) :
    Reads (.int i) := by
  apply reads_of_readAtom
  · intro level
    have hwrite : write level (.int i) = numeral (decide (i < 0)) i.natAbs := toString_eq_numeral i
    obtain ⟨d, ds, hds, hdigit⟩ := exists_cons_toDigits i.natAbs
    rw [hwrite, numeral]
    split
    · exact ⟨'-', _, rfl, by decide, by decide⟩
    · refine ⟨d, ds, hds, ?_, ?_⟩
      · intro hmem
        fin_cases hmem <;> cases hdigit
      · intro hmem
        fin_cases hmem <;> cases hdigit
  · intro level rest hrest
    exact readAtom_int h hrest

/-! ## Lists and mappings -/

section

variable {fuel : Nat} {cs after rest : List Char} {v : Value}

theorem readItems_last (hv : readValue fuel cs = .ok (v, after))
    (hafter : skipBlanks after = ']' :: rest) : readItems (fuel + 1) cs = .ok ([v], rest) := by
  simp only [readItems, hv, hafter]

theorem readItems_more {vs : List Value} (hv : readValue fuel cs = .ok (v, ',' :: after))
    (hvs : readItems fuel (skipBlanks after) = .ok (vs, rest)) :
    readItems (fuel + 1) cs = .ok (v :: vs, rest) := by
  have hcomma : skipBlanks (',' :: after) = ',' :: after := skipBlanks_cons (by decide) after
  simp only [readItems, hv, hcomma, hvs]
  rfl

theorem readEntries_last (key : String) (hcs : skipBlanks cs = cs)
    (hv : readValue fuel cs = .ok (v, after)) (hafter : skipBlanks after = '\x7d' :: rest) :
    readEntries (fuel + 1) (quote key ++ ':' :: ' ' :: cs) = .ok ([(.str key, v)], rest) := by
  have hcolon : skipBlanks (':' :: ' ' :: cs) = ':' :: ' ' :: cs :=
    skipBlanks_cons (by decide) _
  have hblank : skipBlanks (' ' :: cs) = cs := hcs
  simp only [quote_append, readEntries, readString_flatMap_escape, hcolon, hblank, hv, hafter,
    String.ofList_toList]

theorem readEntries_more {es : Fields} (key : String) (hcs : skipBlanks cs = cs)
    (hv : readValue fuel cs = .ok (v, ',' :: after))
    (hes : readEntries fuel (skipBlanks after) = .ok (es, rest)) :
    readEntries (fuel + 1) (quote key ++ ':' :: ' ' :: cs) = .ok ((.str key, v) :: es, rest) := by
  have hcolon : skipBlanks (':' :: ' ' :: cs) = ':' :: ' ' :: cs :=
    skipBlanks_cons (by decide) _
  have hblank : skipBlanks (' ' :: cs) = cs := hcs
  have hcomma : skipBlanks (',' :: after) = ',' :: after := skipBlanks_cons (by decide) after
  simp only [quote_append, readEntries, readString_flatMap_escape, hcolon, hblank, hv, hcomma, hes,
    String.ofList_toList]
  rfl

end

theorem writeItems_cons_cons (level : Nat) (v w : Value) (items : List Value) :
    writeItems level (v :: w :: items) =
      newline level ++ (write level v ++ ',' :: writeItems level (w :: items)) := rfl

theorem writeEntries_cons_cons (level : Nat) (k v : Value) (e : Value × Value) (entries : Fields) :
    writeEntries level ((k, v) :: e :: entries) =
      newline level ++
        (quote k.text ++ ':' :: ' ' :: (write level v ++ ',' :: writeEntries level (e :: entries))) :=
  rfl

/-- Elements that are read back one by one are read back as a list up to the bracket. -/
theorem readItems_writeItems {items : List Value} (hitems : ∀ v ∈ items, Reads v) (hne : items ≠ [])
    (level outer : Nat) (rest : List Char) {fuel : Nat}
    (hfuel : (writeItems level items).length ≤ fuel) :
    readItems fuel (skipBlanks (writeItems level items ++ (newline outer ++ ']' :: rest))) =
      .ok (items, rest) := by
  -- the line break before an element pays for the step that reads it
  induction items generalizing fuel with
  | nil => exact absurd rfl hne
  | cons v items ih =>
    rw [List.forall_mem_cons] at hitems
    obtain ⟨hv, hitems⟩ := hitems
    cases items with
    | nil =>
      rw [writeItems, List.length_append, newline, List.length_cons] at hfuel
      obtain ⟨fuel, rfl⟩ : ∃ k, fuel = k + 1 := ⟨fuel - 1, by omega⟩
      rw [writeItems, List.append_assoc, skipBlanks_newline, hv.skipBlanks_write]
      apply readItems_last (hv.back (endsValue_newline _ _) (by omega))
      rw [skipBlanks_newline]
      exact skipBlanks_cons (by decide) rest
    | cons w items =>
      rw [writeItems_cons_cons, List.length_append, newline, List.length_cons, List.length_append,
        List.length_cons] at hfuel
      obtain ⟨fuel, rfl⟩ : ∃ k, fuel = k + 1 := ⟨fuel - 1, by omega⟩
      rw [writeItems_cons_cons, List.append_assoc, skipBlanks_newline, List.append_assoc,
        List.cons_append, hv.skipBlanks_write]
      apply readItems_more (hv.back (endsValue_comma _) (by omega))
      exact ih hitems (List.cons_ne_nil w items) (by omega)

/-- Entries whose values are read back one by one are read back as a mapping up to the brace. -/
theorem readEntries_writeEntries {entries : Fields} (hkeys : ∀ e ∈ entries, e.1.isStr)
    (hvalues : ∀ e ∈ entries, Reads e.2) (hne : entries ≠ []) (level outer : Nat) (rest : List Char)
    {fuel : Nat} (hfuel : (writeEntries level entries).length ≤ fuel) :
    readEntries fuel (skipBlanks (writeEntries level entries ++ (newline outer ++ '\x7d' :: rest))) =
      .ok (entries, rest) := by
  induction entries generalizing fuel with
  | nil => exact absurd rfl hne
  | cons e entries ih =>
    obtain ⟨k, v⟩ := e
    rw [List.forall_mem_cons] at hkeys hvalues
    have hv : Reads v := hvalues.1
    obtain ⟨key, rfl⟩ := exists_of_isStr hkeys.1
    have htext : (Value.str key).text = key := rfl
    have hquote (cs : List Char) : skipBlanks (quote key ++ cs) = quote key ++ cs :=
      skipBlanks_cons (by decide) _
    cases entries with
    | nil =>
      rw [writeEntries, List.length_append, newline, List.length_cons, List.length_append] at hfuel
      simp only [List.length_cons] at hfuel
      obtain ⟨fuel, rfl⟩ : ∃ k, fuel = k + 1 := ⟨fuel - 1, by omega⟩
      rw [writeEntries, List.append_assoc, skipBlanks_newline, htext, List.append_assoc,
        hquote, List.cons_append, List.cons_append]
      apply readEntries_last key (hv.skipBlanks_write _ _)
        (hv.back (endsValue_newline _ _) (by omega))
      rw [skipBlanks_newline]
      exact skipBlanks_cons (by decide) rest
    | cons f entries =>
      rw [writeEntries_cons_cons, List.length_append, newline, List.length_cons,
        List.length_append] at hfuel
      simp only [List.length_cons, List.length_append] at hfuel
      obtain ⟨fuel, rfl⟩ : ∃ k, fuel = k + 1 := ⟨fuel - 1, by omega⟩
      rw [writeEntries_cons_cons, List.append_assoc, skipBlanks_newline, htext, List.append_assoc,
        hquote,
        List.cons_append, List.cons_append, List.append_assoc, List.cons_append]
      apply readEntries_more key (hv.skipBlanks_write _ _) (hv.back (endsValue_comma _) (by omega))
      exact ih hkeys.2 hvalues.2 (List.cons_ne_nil f entries) (by omega)

theorem readValue_items {c : Char} {cs after : List Char} (hcs : skipBlanks cs = c :: after)
    (hc : c ≠ ']') (fuel : Nat) :
    readValue (fuel + 1) ('[' :: cs) =
      (readItems fuel (skipBlanks cs)).map fun p => (.seq p.1, p.2) := by
  rw [readValue, hcs]
  split
  · next heq => exact absurd (List.cons.inj heq).1 hc
  · rfl

theorem readValue_entries {c : Char} {cs after : List Char} (hcs : skipBlanks cs = c :: after)
    (hc : c ≠ '\x7d') (fuel : Nat) :
    readValue (fuel + 1) ('\x7b' :: cs) =
      (readEntries fuel (skipBlanks cs)).map fun p => (.map (Entries.ofPairs p.1), p.2) := by
  rw [readValue, hcs]
  split
  · next heq => exact absurd (List.cons.inj heq).1 hc
  · rfl

/-- After the blanks of its line the first element starts. -/
theorem skipBlanks_writeItems {v : Value} (hv : Reads v) (items : List Value) (level : Nat)
    (rest : List Char) :
    ∃ c cs, skipBlanks (writeItems level (v :: items) ++ rest) = c :: cs ∧ StartsValue c := by
  obtain ⟨after, hafter⟩ : ∃ after,
      writeItems level (v :: items) = newline level ++ (write level v ++ after) := by
    cases items with
    | nil => exact ⟨[], by rw [List.append_nil]; rfl⟩
    | cons w items => exact ⟨_, rfl⟩
  obtain ⟨c, cs, hwrite, hc⟩ := hv.starts level
  refine ⟨c, cs ++ (after ++ rest), ?_, hc⟩
  rw [hafter, List.append_assoc, skipBlanks_newline, List.append_assoc, hv.skipBlanks_write, hwrite]
  rfl

/-- A list is read back if its elements are. -/
theorem reads_seq {items : List Value} (hitems : ∀ v ∈ items, Reads v) : Reads (.seq items) := by
  cases items with
  | nil =>
    refine ⟨fun level => ⟨'[', _, rfl, by decide⟩, ?_⟩
    intro level fuel rest hrest hfuel
    cases fuel with
    | zero => cases hfuel
    | succ fuel => rfl
  | cons v items =>
    refine ⟨fun level => ⟨'[', _, rfl, by decide⟩, ?_⟩
    intro level fuel rest hrest hfuel
    have hwrite : write level (.seq (v :: items)) =
        '[' :: (writeItems (level + 1) (v :: items) ++ (newline level ++ [']'])) := rfl
    rw [hwrite, List.length_cons, List.length_append] at hfuel
    obtain ⟨fuel, rfl⟩ : ∃ k, fuel = k + 1 := ⟨fuel - 1, by omega⟩
    obtain ⟨c, cs, hfirst, hc⟩ := skipBlanks_writeItems (hitems v List.mem_cons_self) items
      (level + 1) (newline level ++ ']' :: rest)
    rw [hwrite, List.cons_append, List.append_assoc, List.append_assoc, List.singleton_append,
      readValue_items hfirst, readItems_writeItems hitems (List.cons_ne_nil v items)]
    · rfl
    · omega
    · rintro rfl
      exact hc (by decide)

/-- A mapping is read back if its values are and each of its keys is there once. -/
theorem reads_map {entries : Fields} (hkeys : ∀ e ∈ entries, e.1.isStr)
    (honce : (Entries.keys entries).Nodup) (hvalues : ∀ e ∈ entries, Reads e.2) :
    Reads (.map entries) := by
  cases entries with
  | nil =>
    refine ⟨fun level => ⟨'\x7b', _, rfl, by decide⟩, ?_⟩
    intro level fuel rest hrest hfuel
    cases fuel with
    | zero => cases hfuel
    | succ fuel => rfl
  | cons e entries =>
    refine ⟨fun level => ⟨'\x7b', _, rfl, by decide⟩, ?_⟩
    intro level fuel rest hrest hfuel
    have hwrite : write level (.map (e :: entries)) =
        '\x7b' :: (writeEntries (level + 1) (e :: entries) ++ (newline level ++ ['\x7d'])) := rfl
    rw [hwrite, List.length_cons, List.length_append] at hfuel
    obtain ⟨fuel, rfl⟩ : ∃ k, fuel = k + 1 := ⟨fuel - 1, by omega⟩
    -- the first key starts with its quote
    obtain ⟨cs, hfirst⟩ : ∃ cs, skipBlanks (writeEntries (level + 1) (e :: entries) ++
        (newline level ++ '\x7d' :: rest)) = '"' :: cs := by
      obtain ⟨k, v⟩ := e
      cases entries with
      | nil =>
        rw [writeEntries, List.append_assoc, skipBlanks_newline]
        exact ⟨_, skipBlanks_cons (by decide) _⟩
      | cons f entries =>
        rw [writeEntries_cons_cons, List.append_assoc, skipBlanks_newline]
        exact ⟨_, skipBlanks_cons (by decide) _⟩
    rw [hwrite, List.cons_append, List.append_assoc, List.append_assoc, List.singleton_append,
      readValue_entries hfirst (by decide),
      readEntries_writeEntries hkeys hvalues (List.cons_ne_nil e entries) _ _ _ (by omega)]
    exact congrArg (fun es => Except.ok (Value.map es, rest)) (Entries.ofPairs_of_nodup honce)

/-- A value whose integers may be written is read back. -/
theorem IsJson.reads {v : Value} (hv : IsJson v) (h : HasShortIntegers v) : Reads v := by
  induction hv with
  | null => exact reads_null
  | bool b => exact reads_bool b
  | int i => exact reads_int (h i .refl)
  | str s => exact reads_str s
  | seq hitems ih => exact reads_seq fun v hv => ih v hv (hasShortIntegers_seq_iff.mp h v hv)
  | map hkeys honce hvalues ih =>
    rw [hasShortIntegers_map_iff hkeys] at h
    exact reads_map hkeys honce fun e he => ih e he (h e he)

/-- A value whose integers may be written is what its text is read as. -/
theorem IsJson.readText_write {v : Value} (hv : IsJson v) (h : HasShortIntegers v) :
    readText (write 0 v ++ ['\n']) = .ok v := by
  have hreads := hv.reads h
  have hback : readValue ((write 0 v ++ ['\n']).length + 1) (write 0 v ++ ['\n']) =
      .ok (v, ['\n']) := by
    apply hreads.back (endsValue_newline 0 [])
    rw [List.length_append]
    omega
  rw [readText, hreads.skipBlanks_write, hback]
  rfl

end ApiTree.Json
