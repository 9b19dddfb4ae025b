import ApiTree.Document.Format
import ApiTree.Proofs.Fragment.Hereditary
import ApiTree.Proofs.Json.RoundTrip
import ApiTree.Proofs.Settings.Project

/-!
# Documents that are read back

A document of null, truth values, integers, texts, lists and mappings with text keys loses nothing
when it is written: the reader of project files gives it back, and YAML is written from the document
itself. The one thing that keeps such a document from being written is an integer with more digits
than a numeral may have (`read_back`).
-/

set_option autoImplicit false

namespace ApiTree.Json

/-! ## Integers that may be written -/

theorem hasLiteral_int_iff (i : Int) :
    (Value.int i).hasLiteral = true ↔ HasShortIntegers (.int i) := by
  have hdigits : (Value.int i).hasLiteral = true ↔
      (Nat.toDigits 10 i.natAbs).length ≤ Text.maxDigits := by
    rw [Value.hasLiteral, decide_eq_true_eq]
    exact Text.lt_pow_iff_length_toDigits_le (by decide)
  rw [hdigits]
  constructor
  · intro h j hj
    cases hj
    exact h
  · intro h
    exact h i .refl

/-- A document can be written exactly if no integer in it is too long. -/
theorem IsJson.hasLiteral_iff {v : Value} (hv : IsJson v) :
    v.hasLiteral = true ↔ HasShortIntegers v := by
  induction hv with
  | null => exact iff_of_true rfl nofun
  | bool b => exact iff_of_true rfl nofun
  | int i => exact hasLiteral_int_iff i
  | str s => exact iff_of_true rfl nofun
  | seq hitems ih =>
    rw [hereditary_hasLiteral.seq_iff, hasShortIntegers_seq_iff]
    exact forall₂_congr ih
  | map hkeys honce hvalues ih =>
    rw [hereditary_hasLiteral.map_iff, hasShortIntegers_map_iff hkeys]
    apply forall₂_congr
    intro e he
    obtain ⟨key, hkey⟩ := exists_of_isStr (hkeys e he)
    rw [ih e he, hkey]
    exact and_iff_right rfl

/-! ## Values that stand for themselves -/

/-- The value stands for itself in JSON, and is refused only for an integer that is too long. -/
def StandsForItself (v : Value) : Prop :=
  plain v = if v.hasLiteral then .ok v else .error .badValue

theorem plainItems_eq {items : List Value} (h : ∀ v ∈ items, StandsForItself v) :
    plainItems items = if Value.itemsHaveLiteral items then .ok items else .error .badValue := by
  induction items with
  | nil => rfl
  | cons v items ih =>
    rw [List.forall_mem_cons] at h
    rw [plainItems, h.1, ih h.2, Value.itemsHaveLiteral]
    cases v.hasLiteral with
    | false => rfl
    | true => cases Value.itemsHaveLiteral items <;> rfl

theorem plainEntries_eq {entries : Fields} (hkeys : ∀ e ∈ entries, e.1.isStr)
    (h : ∀ e ∈ entries, StandsForItself e.2) :
    plainEntries entries =
      if Value.entriesHaveLiteral entries then .ok entries else .error .badValue := by
  induction entries with
  | nil => rfl
  | cons e entries ih =>
    obtain ⟨k, v⟩ := e
    rw [List.forall_mem_cons] at hkeys h
    obtain ⟨key, rfl⟩ := exists_of_isStr hkeys.1
    rw [plainEntries, h.1, ih hkeys.2 h.2, Value.entriesHaveLiteral]
    cases v.hasLiteral with
    | false => rfl
    | true => cases Value.entriesHaveLiteral entries <;> rfl

theorem IsJson.standsForItself {v : Value} (hv : IsJson v) : StandsForItself v := by
  induction hv with
  | null => rfl
  | bool b => rfl
  | int i => rw [StandsForItself, plain]
  | str s => rfl
  | seq hitems ih =>
    rw [StandsForItself, plain, plainItems_eq ih, Value.hasLiteral]
    split <;> rfl
  | map hkeys honce hvalues ih =>
    rw [StandsForItself, plain, plainEntries_eq hkeys ih, Value.hasLiteral]
    split <;> rfl

/-- A document of JSON has each key as text once already. -/
theorem IsJson.withTextKeys_eq {v : Value} (hv : IsJson v) : v.withTextKeys = v := by
  induction hv with
  | null => rfl
  | bool b => rfl
  | int i => rfl
  | str s => rfl
  | seq hitems ih =>
    rw [Value.withTextKeys, Value.itemsWithTextKeys_eq_map, List.map_congr_left ih, List.map_id']
  | @map entries hkeys honce hvalues ih =>
    have hentry : ∀ e ∈ entries, (Value.str e.1.text, e.2.withTextKeys) = e := by
      intro e he
      obtain ⟨key, hkey⟩ := exists_of_isStr (hkeys e he)
      rw [ih e he, hkey]
      exact Prod.ext hkey.symm rfl
    rw [Value.withTextKeys_map, Value.textEntries, Value.entriesWithTextKeys_eq_map,
      List.map_congr_left hentry, List.map_id', Entries.ofPairs_of_nodup honce]

end ApiTree.Json

namespace ApiTree.DocumentFormat

open Json

variable {v : Value}

/-! ## Documents -/

theorem write_json_of_short (hv : IsJson v) (h : HasShortIntegers v) :
    json.write v = .ok (String.ofList (Json.write 0 v) ++ "\n") := by
  rw [DocumentFormat.write, Json.render, hv.standsForItself, if_pos (hv.hasLiteral_iff.mpr h)]
  rfl

theorem plain_of_short (hv : IsJson v) (h : HasShortIntegers v) :
    DocumentFormat.plain v = .ok v := by
  rw [DocumentFormat.plain, hv.standsForItself, if_pos (hv.hasLiteral_iff.mpr h)]
  exact congrArg Except.ok hv.withTextKeys_eq

/-- An integer with too many digits keeps a document from being written, in either format. -/
theorem write_of_not_short (hv : IsJson v) (h : ¬ HasShortIntegers v) (format : DocumentFormat) :
    format.write v = .error .badValue := by
  have hplain : Json.plain v = .error .badValue := by
    rw [hv.standsForItself, if_neg (mt hv.hasLiteral_iff.mp h)]
  cases format with
  | json =>
    rw [DocumentFormat.write, Json.render, hplain]
    rfl
  | yaml =>
    rw [DocumentFormat.write, DocumentFormat.plain, hplain]
    rfl

/-- The text that is written is read as the document. -/
theorem readText_of_write (hv : IsJson v) {text : String} (h : json.write v = .ok text) :
    readText text.toList = .ok v := by
  by_cases hshort : HasShortIntegers v
  · rw [write_json_of_short hv hshort] at h
    obtain rfl := Except.ok.inj h
    rw [String.toList_append, String.toList_ofList]
    exact hv.readText_write hshort
  · cases (write_of_not_short hv hshort json).symm.trans h

/-- Writing a document of JSON loses nothing: its text is read as the document by the reader of
project files, the value that YAML is written from is the document, and documents that differ have
texts that differ. Only a document with an integer of more digits than a numeral may have is not
written, in either format. -/
theorem read_back (hv : IsJson v) :
    (HasShortIntegers v →
      (∃ text, json.write v = .ok text ∧ readText text.toList = .ok v ∧
        ∀ disk path? entries, v = .map entries →
          Settings.HasText disk (Settings.projectPath disk path?) text →
          Settings.loadProject disk path? = .ok (some entries)) ∧
      DocumentFormat.plain v = .ok v ∧ yaml.write v = .ok (Yaml.render v)) ∧
    (¬ HasShortIntegers v → ∀ format : DocumentFormat, format.write v = .error .badValue) ∧
    ∀ w text, IsJson w → json.write v = .ok text → json.write w = .ok text → v = w := by
  refine ⟨fun h => ⟨?_, ?_, ?_⟩, write_of_not_short hv, ?_⟩
  · have hwrite := write_json_of_short hv h
    have hread := readText_of_write hv hwrite
    refine ⟨_, hwrite, hread, ?_⟩
    rintro disk path? entries rfl htext
    rw [Settings.loadProject_of_text htext, Settings.parseProject, hread]
    rfl
  · exact plain_of_short hv h
  · rw [DocumentFormat.write, plain_of_short hv h]
    rfl
  · intro w text hw hvtext hwtext
    exact Except.ok.inj ((readText_of_write hv hvtext).symm.trans (readText_of_write hw hwtext))

/-- A document with quotes in a key, a line break in a text, a negative number and an empty
mapping. -/
def plainDocument : Value :=
  .map [(.str "say \"hi\"", .str "a\nb"), (.str "items", .seq [.int (-12), .bool true, .map []])]

/-- A document with the least integer of more digits than a numeral may have. -/
def longDocument : Value := .map [(.str "a", .int (10 ^ Text.maxDigits))]

theorem isJson_plainDocument : IsJson plainDocument := by
  have hempty : IsJson (.map []) := .map nofun (by decide) nofun
  have hitems : IsJson (.seq [.int (-12), .bool true, .map []]) := by
    apply IsJson.seq
    simp only [List.forall_mem_cons]
    exact ⟨.int _, .bool _, hempty, nofun⟩
  apply IsJson.map
  · simp only [List.forall_mem_cons]
    exact ⟨rfl, rfl, nofun⟩
  · decide
  · simp only [List.forall_mem_cons]
    exact ⟨.str _, hitems, nofun⟩

theorem isJson_longDocument : IsJson longDocument := by
  apply IsJson.map
  · simp only [List.forall_mem_cons]
    exact ⟨rfl, nofun⟩
  · exact List.nodup_singleton _
  · simp only [List.forall_mem_cons]
    exact ⟨.int _, nofun⟩

theorem hasShortIntegers_plainDocument : HasShortIntegers plainDocument := by
  have hnumber : HasShortIntegers (.int (-12)) := by
    intro i hi
    cases hi
    decide
  have hempty : HasShortIntegers (.map []) := by
    rw [hasShortIntegers_map_iff (by decide)]
    exact List.forall_mem_nil _
  have hitems : HasShortIntegers (.seq [.int (-12), .bool true, .map []]) := by
    rw [hasShortIntegers_seq_iff]
    simp only [List.forall_mem_cons]
    exact ⟨hnumber, nofun, hempty, nofun⟩
  rw [plainDocument, hasShortIntegers_map_iff (by decide)]
  simp only [List.forall_mem_cons]
  exact ⟨nofun, hitems, nofun⟩

theorem not_hasShortIntegers_longDocument : ¬ HasShortIntegers longDocument := by
  intro h
  have hdigits := h (10 ^ Text.maxDigits) (.value List.mem_cons_self .refl)
  rw [← Text.lt_pow_iff_length_toDigits_le (by decide)] at hdigits
  have hpow (k : Nat) : ¬ ((10 : Int) ^ k).natAbs < Nat.pow 10 k := by
    rw [Int.natAbs_pow]
    exact Nat.lt_irrefl (10 ^ k)
  exact hpow Text.maxDigits hdigits

/-- The document with few digits is read back, and the one with too many is not written. -/
theorem read_back_documents :
    IsJson plainDocument ∧ HasShortIntegers plainDocument ∧
    (∃ text, json.write plainDocument = .ok text ∧ readText text.toList = .ok plainDocument) ∧
    IsJson longDocument ∧ ¬ HasShortIntegers longDocument ∧
    ∀ format : DocumentFormat, format.write longDocument = .error .badValue := by
  obtain ⟨text, hwrite, hread, -⟩ :=
    ((read_back isJson_plainDocument).1 hasShortIntegers_plainDocument).1
  exact ⟨isJson_plainDocument, hasShortIntegers_plainDocument, ⟨text, hwrite, hread⟩,
    isJson_longDocument, not_hasShortIntegers_longDocument,
    (read_back isJson_longDocument).2.1 not_hasShortIntegers_longDocument⟩

/-- Not every document of JSON is read back: one with an integer of 4301 digits is not written. -/
theorem not_read_back_longDocument :
    IsJson longDocument ∧
      ¬ ∃ text, json.write longDocument = .ok text ∧ readText text.toList = .ok longDocument := by
  refine ⟨isJson_longDocument, ?_⟩
  rintro ⟨text, hwrite, -⟩
  have hrefused := write_of_not_short isJson_longDocument not_hasShortIntegers_longDocument json
  cases hrefused.symm.trans hwrite

end ApiTree.DocumentFormat
