import ApiTree.Proofs.Operation.Parameter

/-!
# Parameters that are written out

A parameter that is given by a mapping without content is written out: it gets a place unless it has
one, and a schema that tells its values, into which its type is moved; its other members stay as they
are (`writesOut_inlineParameter`). What is written out is not changed by writing it out again
(`inlineParameter_of_isWrittenOut`), so that parameters that are mappings are expanded once and for
all (`parameters_of_entries`).
-/

set_option autoImplicit false

namespace ApiTree

namespace OperationView

/-! ## Parameters that are complete -/

/-- A schema tells the values that it takes: it refers to another schema, is composed of others, or
has a type. -/
def TellsValues (schema : Fields) : Prop :=
  Fields.has "$ref" schema = true ∨ (∃ e ∈ schema, Text.endsWith e.1.text "Of" = true) ∨
    Fields.has "type" schema = true

/-- A parameter is written out: it has a place and a schema that tells its values, and no type
beside the schema. -/
structure IsWrittenOut (parameter : Fields) : Prop where
  place : Fields.has "in" parameter = true
  schema : ∃ schema, Fields.get? "schema" parameter = some (.map schema) ∧ TellsValues schema
  noType : Fields.has "type" parameter = false

/-- The members of a parameter apart from its place, its schema and its type. -/
def otherMembers (parameter : Fields) : Fields :=
  parameter.filter fun e => e.1 ∉ ([.str "in", .str "schema", .str "type"] : List Value)

/-- A parameter is another one written out. A place that is given stays, and so do the members of a
schema that is given as a mapping; all other members are the same in the same order. -/
structure WritesOut (entry parameter : Fields) : Prop where
  isWrittenOut : IsWrittenOut parameter
  place : Fields.get? "in" parameter = some ((Fields.get? "in" entry).getD (.str "formData"))
  schema : ∀ own, Fields.get? "schema" entry = some (.map own) →
    ∃ more, Fields.get? "schema" parameter = some (.map (own ++ more))
  others : otherMembers parameter = otherMembers entry

/-! ## Schemas -/

theorem tellsValues_iff {schema : Fields} :
    TellsValues schema ↔
      (Fields.has "$ref" schema || schema.any fun e => Text.endsWith e.1.text "Of") = true ∨
        Fields.has "type" schema = true := by
  rw [TellsValues, Bool.or_eq_true, List.any_eq_true, or_assoc]

/-- The schema of a parameter tells its values, whatever is written for it. -/
theorem tellsValues_parameterSchema (schema type : Value) :
    TellsValues (parameterSchema schema type) := by
  unfold parameterSchema
  extract_lets given
  rw [tellsValues_iff]
  split
  · next htold => exact .inl htold
  · apply Or.inr
    rw [Fields.has, Entries.has, Fields.putNew, Entries.get?_putNew, if_pos rfl]
    rfl

/-- A schema that tells its values needs no type. -/
theorem parameterSchema_of_tellsValues {schema : Fields} (h : TellsValues schema) (type : Value) :
    parameterSchema (.map schema) type = schema := by
  rw [parameterSchema]
  rcases tellsValues_iff.mp h with htold | htype
  · exact if_pos htold
  · split
    · rfl
    · exact if_pos htype

/-- A schema that is given as a mapping keeps its members. -/
theorem parameterSchema_eq_append (own : Fields) (type : Value) :
    ∃ more, parameterSchema (.map own) type = own ++ more := by
  rw [parameterSchema]
  split
  · exact ⟨[], (List.append_nil own).symm⟩
  · exact Entries.putNew_eq_append _ _ _

/-! ## Writing a parameter out -/

section

variable (fields : Fields)

theorem get?_inlineParameter {key : String} (h : key ∉ ["in", "schema", "type"]) :
    Fields.get? key (inlineParameter fields) = Fields.get? key fields := by
  simp only [List.mem_cons, List.not_mem_nil, or_false, not_or] at h
  obtain ⟨hplace, hschema, htype⟩ := h
  rw [inlineParameter]
  dsimp only [Fields.get?, Fields.erase, Fields.put, Fields.putNew]
  rw [Entries.get?_erase_of_ne (by simpa using Ne.symm htype),
    Entries.get?_put_of_ne (by simpa using Ne.symm hschema), Entries.get?_putNew,
    if_neg (by simpa using Ne.symm hplace)]

theorem get?_inlineParameter_in :
    Fields.get? "in" (inlineParameter fields) =
      some ((Fields.get? "in" fields).getD (.str "formData")) := by
  rw [inlineParameter]
  dsimp only [Fields.get?, Fields.erase, Fields.put, Fields.putNew]
  rw [Entries.get?_erase_of_ne (by decide), Entries.get?_put_of_ne (by decide),
    Entries.get?_putNew, if_pos rfl]

theorem get?_inlineParameter_schema :
    Fields.get? "schema" (inlineParameter fields) =
      some (.map (parameterSchema (Fields.getD "schema" fields) (Fields.getD "type" fields))) := by
  have hothers {key : String} (h : Value.str "in" ≠ .str key) :
      Fields.getD key (Fields.putNew "in" (.str "formData") fields) = Fields.getD key fields := by
    rw [Fields.getD, Fields.getD, Fields.get?, Fields.putNew, Entries.get?_putNew, if_neg h]
    rfl
  rw [inlineParameter, hothers (by decide), hothers (by decide)]
  dsimp only [Fields.get?, Fields.erase, Fields.put]
  rw [Entries.get?_erase_of_ne (by decide), Entries.get?_put_self]

theorem otherMembers_inlineParameter :
    otherMembers (inlineParameter fields) = otherMembers fields := by
  rw [inlineParameter]
  dsimp only [otherMembers, Fields.erase, Fields.put, Fields.putNew]
  rw [Entries.filter_erase (by simp), Entries.filter_put (by simp) (by simp), Entries.putNew]
  -- a place that is added is none of the other members
  split
  · rfl
  · exact Entries.filter_put (by simp) (by simp)

end

/-- A type is moved into the schema, and none is left beside it. -/
theorem has_type_inlineParameter {fields : Fields} (h : (Entries.keys fields).Nodup) :
    Fields.has "type" (inlineParameter fields) = false := by
  have hplace : (Entries.keys (Fields.putNew "in" (.str "formData") fields)).Nodup := by
    rw [Fields.putNew, Entries.putNew]
    split
    · exact h
    · exact Entries.nodup_keys_put _ _ h
  rw [inlineParameter, Fields.has, Entries.has]
  dsimp only [Fields.erase, Fields.put]
  rw [Entries.get?_erase_self (Entries.nodup_keys_put _ _ hplace)]
  rfl

theorem writesOut_inlineParameter {fields : Fields} (h : (Entries.keys fields).Nodup) :
    WritesOut fields (inlineParameter fields) where
  isWrittenOut := by
    refine ⟨?_, ⟨_, get?_inlineParameter_schema fields, ?_⟩, has_type_inlineParameter h⟩
    · have hplace := get?_inlineParameter_in fields
      rw [Fields.get?] at hplace
      rw [Fields.has, Entries.has, hplace]
      rfl
    · exact tellsValues_parameterSchema _ _
  place := get?_inlineParameter_in fields
  schema := by
    intro own hown
    have hgiven : Fields.getD "schema" fields = .map own := by
      rw [Fields.getD, hown]
      rfl
    obtain ⟨more, hmore⟩ := parameterSchema_eq_append own (Fields.getD "type" fields)
    exact ⟨more, by rw [get?_inlineParameter_schema, hgiven, hmore]⟩
  others := otherMembers_inlineParameter fields

/-- What is written out is not changed by writing it out. -/
theorem inlineParameter_of_isWrittenOut {parameter : Fields} (h : IsWrittenOut parameter) :
    inlineParameter parameter = parameter := by
  obtain ⟨schema, hschema, htells⟩ := h.schema
  have hplace : Fields.putNew "in" (.str "formData") parameter = parameter := if_pos h.place
  have hgiven : Fields.getD "schema" parameter = .map schema := by
    rw [Fields.getD, hschema]
    rfl
  have htype : Value.str "type" ∉ Entries.keys parameter := by
    apply Entries.get?_eq_none_iff.mp
    simpa [Fields.has, Entries.has] using h.noType
  rw [inlineParameter, hplace, hgiven]
  dsimp only [Fields.erase, Fields.put]
  rw [parameterSchema_of_tellsValues htells, Entries.put_of_get? hschema,
    Entries.erase_of_not_mem htype]

/-! ## Lists of parameters -/

/-- What the parameter that an entry of the list gives looks like. -/
inductive Expands : Value → Value → Prop
  /-- A text names a parameter component. -/
  | named (name : String) : Expands (.str name) (.reference ("#/components/parameters/" ++ name))
  | content {fields : Fields} (h : Fields.has "content" fields = true) :
      Expands (.map fields) (.map fields)
  | inline {fields parameter : Fields} (hcontent : Fields.has "content" fields = false)
      (h : WritesOut fields parameter) : Expands (.map fields) (.map parameter)

theorem expands_expandedEntries {v : Value} (h : (v.isStr || v.isMap) = true)
    (honce : ∀ fields, v = .map fields → (Entries.keys fields).Nodup) :
    Expands v (.map (expandedEntries v)) := by
  cases v with
  | str name => exact .named name
  | map fields =>
    rw [expandedEntries]
    cases hcontent : Fields.has "content" fields with
    | true => exact .content hcontent
    | false => exact .inline hcontent (writesOut_inlineParameter (honce fields rfl))
  | _ => cases h

/-- A mapping is expanded once and for all. -/
theorem expandedEntries_expandedEntries {fields : Fields} (h : (Entries.keys fields).Nodup) :
    expandedEntries (.map (expandedEntries (.map fields))) = expandedEntries (.map fields) := by
  rw [expandedEntries, expandedEntries]
  cases hcontent : Fields.has "content" fields with
  | true => rw [if_pos rfl, if_pos hcontent]
  | false =>
    rw [if_neg Bool.false_ne_true]
    have hstill : Fields.has "content" (inlineParameter fields) = false := by
      have hmembers : Fields.get? "content" (inlineParameter fields) =
          Fields.get? "content" fields := get?_inlineParameter fields (by decide)
      rw [Fields.get?, Fields.get?] at hmembers
      rw [← hcontent, Fields.has, Fields.has, Entries.has, Entries.has, hmembers]
    rw [hstill, if_neg Bool.false_ne_true]
    exact inlineParameter_of_isWrittenOut (writesOut_inlineParameter h).isWrittenOut

/-- Each entry of a list of texts and mappings gives one parameter, in the same order. If all of them
are mappings, a view that lists the parameters as they are has the same parameters. -/
theorem parameters_of_entries {t : OperationView} {written : List Value}
    (h : t.written "parameters" = .seq written)
    (hkinds : ∀ v ∈ written, (v.isStr || v.isMap) = true)
    (honce : ∀ fields, .map fields ∈ written → (Entries.keys fields).Nodup) :
    ∃ parameters, t.parameters = .ok parameters ∧ List.Forall₂ Expands written parameters ∧
      ((∀ v ∈ written, v.isMap = true) → ∀ t' : OperationView,
        t'.written "parameters" = .seq parameters → t'.parameters = .ok parameters) := by
  refine ⟨expandedParameters written, parameters_of_written h hkinds, ?_, ?_⟩
  · rw [expandedParameters, List.forall₂_map_right_iff, List.forall₂_same]
    intro v hv
    exact expands_expandedEntries (hkinds v hv) fun fields hfields => honce fields (hfields ▸ hv)
  · intro hmaps t' ht'
    have hresults : ∀ v ∈ expandedParameters written, (v.isStr || v.isMap) = true := by
      intro v hv
      obtain ⟨w, -, rfl⟩ := List.mem_map.mp hv
      rfl
    rw [parameters_of_written ht' hresults]
    apply congrArg Except.ok
    rw [expandedParameters, expandedParameters, List.map_map]
    apply List.map_congr_left
    intro v hv
    cases v with
    | map fields => exact congrArg Value.map (expandedEntries_expandedEntries (honce fields hv))
    | _ => cases hmaps _ hv

/-- A parameter with content, one that is given by its type, one by the name of its schema, one with
a composed schema, and one of which nothing is given. -/
theorem parameters_of_entries_once :
    let composed : Value := .single "oneOf" (.seq [.str "A", .str "B"])
    let cursor : Value := .map [("name", .str "cursor"), ("content", .map [])]
    let written : List Value :=
      [cursor, .map [("name", .str "limit"), ("type", .str "integer")],
        .map [("schema", .str "Widget"), ("in", .str "query")],
        .map [("schema", composed), ("type", .str "object")], .map []]
    let parameters : List Value :=
      [cursor,
        .map [("name", .str "limit"), ("in", .str "formData"),
          ("schema", .single "type" (.str "integer"))],
        .map [("schema", .reference "#/components/schemas/Widget"), ("in", .str "query")],
        .map [("schema", composed), ("in", .str "formData")],
        .map [("in", .str "formData"), ("schema", .single "type" (.str "string"))]]
    (∀ v ∈ written, (v.isStr || v.isMap) = true) ∧
      (∀ fields, .map fields ∈ written → (Entries.keys fields).Nodup) ∧
      (withoutResponses written).parameters = .ok parameters ∧
      List.Forall₂ Expands written parameters ∧
      (withoutResponses parameters).parameters = .ok parameters := by
  intro composed cursor written parameters
  have hwritten : (withoutResponses written).written "parameters" = .seq written := by decide
  have hkinds : ∀ v ∈ written, (v.isStr || v.isMap) = true := by decide
  have honce : ∀ fields, .map fields ∈ written → (Entries.keys fields).Nodup := by
    intro fields hfields
    simp only [written, cursor, List.mem_cons, Value.map.injEq, List.not_mem_nil, or_false]
      at hfields
    rcases hfields with rfl | rfl | rfl | rfl | rfl <;> decide
  obtain ⟨results, hresults, hexpands, hstable⟩ := parameters_of_entries hwritten hkinds honce
  obtain rfl : parameters = results := by
    have hparameters : (withoutResponses written).parameters = .ok parameters := rfl
    exact Except.ok.inj (hparameters.symm.trans hresults)
  refine ⟨hkinds, honce, hresults, hexpands, ?_⟩
  apply hstable
  · decide
  · decide

end OperationView
end ApiTree
