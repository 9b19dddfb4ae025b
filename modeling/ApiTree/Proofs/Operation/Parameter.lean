import ApiTree.Proofs.Operation.Description

/-!
# Parameters that are written as references

A parameter component is referred to by its name or by a mapping with the reference. The name
expands to the mapping. But the mapping is taken for a parameter of its own: it gets a place, the
form, and a schema, and what is a part of a form is not listed in a document. So the two ways agree
on the names of the parameters, and a parameter that is written as a reference is missing from the
description of the operation (`rendered_withReference`).
-/

set_option autoImplicit false

namespace ApiTree.OperationView

/-! ## What parameters expand to -/

/-- The entries that a text or a mapping expands to. -/
def expandedEntries : Value → Fields
  | .str name => [("$ref", .str ("#/components/parameters/" ++ name))]
  | .map fields => if Fields.has "content" fields then fields else inlineParameter fields
  | _ => []

/-- The parameters that texts and mappings expand to. -/
def expandedParameters (written : List Value) : List Value :=
  written.map fun v => .map (expandedEntries v)

/-- The place of a parameter is the body of a request. -/
def isInBody (parameter : Value) : Bool :=
  let place := Value.ofOption (parameter.member? "in")
  place == .str "formData" || place == .str "body"

/-- Those of the parameters that a document lists. -/
def outsideBody (parameters : List Value) : List Value := parameters.filter fun p => !isInBody p

theorem expandedParameters_append (before after : List Value) :
    expandedParameters (before ++ after) =
      expandedParameters before ++ expandedParameters after := List.map_append

theorem outsideBody_append (before after : List Value) :
    outsideBody (before ++ after) = outsideBody before ++ outsideBody after :=
  List.filter_append before after

theorem expandParameter_eq {v : Value} (h : (v.isStr || v.isMap) = true) :
    expandParameter v = .ok (.map (expandedEntries v)) := by
  cases v with
  | str name => rfl
  | map fields =>
    rw [expandParameter, Value.hasElement, expandedEntries]
    cases Fields.has "content" fields <;> rfl
  | _ => cases h

theorem isBodyParameter_map (entries : Fields) :
    isBodyParameter (.map entries) = .ok (isInBody (.map entries)) := rfl

variable {t : OperationView} {written : List Value}

theorem parameters_of_written (h : t.written "parameters" = .seq written)
    (hkinds : ∀ v ∈ written, (v.isStr || v.isMap) = true) :
    t.parameters = .ok (expandedParameters written) := by
  have hitems : (Value.seq written).toItems = written := rfl
  rw [parameters, h, hitems]
  clear h hitems
  induction written with
  | nil => rfl
  | cons v written ih =>
    rw [List.forall_mem_cons] at hkinds
    rw [List.mapM_cons, expandParameter_eq hkinds.1, ok_bind, ih hkinds.2]
    rfl

theorem listedParameters_of_written (h : t.written "parameters" = .seq written)
    (hkinds : ∀ v ∈ written, (v.isStr || v.isMap) = true) :
    t.listedParameters = .ok (outsideBody (expandedParameters written)) := by
  rw [listedParameters, parameters_of_written h hkinds, ok_bind]
  apply filterM_eq_ok
  intro p hp
  obtain ⟨v, -, rfl⟩ := List.mem_map.mp hp
  rw [isBodyParameter_map]
  rfl

/-! ## Other parameters in a description -/

/-- The description with other parameters. -/
def withParameters (parameters : List Value) (op : Fields) : Fields :=
  if parameters.isEmpty then Fields.erase "parameters" op
  else Fields.put "parameters" (.seq parameters) op

theorem withParameters_parts (id : Option String) (tags : List String) {listed : List Value}
    (hlisted : listed ≠ []) (parameters : List Value) (body : Option Value) (responses : Fields) :
    withParameters parameters (t.headEntries id tags ++ entryIfAny "parameters" (.seq listed) ++
      tailEntries body responses) =
        t.headEntries id tags ++ entryIfAny "parameters" (.seq parameters) ++
          tailEntries body responses := by
  have habsent : Value.str "parameters" ∉ Entries.keys (t.headEntries id tags) :=
    Entries.get?_eq_none_iff.mp (t.get?_headEntries (by decide) id tags)
  have hentry : entryIfAny "parameters" (.seq listed) =
      ([("parameters", .seq listed)] : Fields) := by
    cases listed with
    | nil => exact absurd rfl hlisted
    | cons p listed => rfl
  rw [withParameters, Fields.erase, Fields.put, List.append_assoc,
    Entries.erase_append_of_not_mem habsent, Entries.put_append_of_not_mem habsent, hentry,
    List.append_assoc, List.singleton_append, Entries.erase, Entries.put, if_pos rfl, if_pos rfl]
  cases parameters <;> rfl

/-- Of a description nothing but the parameters depends on the parameters that are written. -/
theorem rendered_withAttribute_parameters {v : Value} {listed parameters : List Value}
    (hlisted : t.listedParameters = .ok listed) (hne : listed ≠ [])
    (hparameters : (t.withAttribute "parameters" v).listedParameters = .ok parameters)
    (components : Value) :
    (t.withAttribute "parameters" v).rendered components =
      (t.rendered components).map (withParameters parameters) := by
  rw [rendered_eq, rendered_eq, hlisted, hparameters, t.operationId_withAttribute v (by decide),
    t.tagNames_withAttribute v (by decide), t.describedBody_withAttribute v (by decide),
    t.describedResponses_withAttribute v (by decide), t.headEntries_withAttribute v (by decide)]
  cases t.operationId with
  | error f => rfl
  | ok id =>
    cases t.tagNames with
    | error f => rfl
    | ok tags =>
      cases t.describedBody components with
      | error f => rfl
      | ok body =>
        cases t.describedResponses with
        | error f => rfl
        | ok responses =>
          exact congrArg Except.ok (withParameters_parts id tags hne parameters body responses).symm

/-! ## References -/

/-- The reference to a parameter component. -/
def parameterReference (name : String) : Value :=
  .reference ("#/components/parameters/" ++ name)

/-- What becomes of a reference that is written as a mapping. -/
def formReference (name : String) : Value :=
  .map [("$ref", .str ("#/components/parameters/" ++ name)), ("in", .str "formData"),
    ("schema", .single "type" (.str "string"))]

theorem parameterName_formReference (name : String) :
    parameterName (formReference name) = parameterName (parameterReference name) := rfl

/-- A parameter component that is referred to by a mapping has the same name as one that is referred
to by its name. But it becomes a part of the form, and so it is left out of the description. -/
theorem rendered_withReference {before after : List Value} {name : String}
    (h : t.written "parameters" = .seq (before ++ .str name :: after))
    (hkinds : ∀ v ∈ before ++ after, (v.isStr || v.isMap) = true) :
    let t' := t.withAttribute "parameters" (.seq (before ++ parameterReference name :: after))
    let front := expandedParameters before
    let back := expandedParameters after
    t'.parameterNames = t.parameterNames ∧
    t.parameters = .ok (front ++ parameterReference name :: back) ∧
    t'.parameters = .ok (front ++ formReference name :: back) ∧
    ∀ components,
      (∀ op, t.rendered components = .ok op → Fields.get? "parameters" op =
        some (.seq (outsideBody front ++ parameterReference name :: outsideBody back))) ∧
      t'.rendered components =
        (t.rendered components).map (withParameters (outsideBody front ++ outsideBody back)) := by
  intro t' front back
  have h' : t'.written "parameters" = .seq (before ++ parameterReference name :: after) :=
    t.written_withAttribute_self _
  have hall {v : Value} (hv : (v.isStr || v.isMap) = true) :
      ∀ w ∈ before ++ v :: after, (w.isStr || w.isMap) = true := by
    obtain ⟨hbefore, hafter⟩ := List.forall_mem_append.mp hkinds
    exact List.forall_mem_append.mpr ⟨hbefore, List.forall_mem_cons.mpr ⟨hv, hafter⟩⟩
  have hparameters : t.parameters = .ok (front ++ parameterReference name :: back) := by
    rw [parameters_of_written h (hall rfl), expandedParameters_append]
    rfl
  have hparameters' : t'.parameters = .ok (front ++ formReference name :: back) := by
    rw [parameters_of_written h' (hall rfl), expandedParameters_append]
    rfl
  have hlisted : t.listedParameters =
      .ok (outsideBody front ++ parameterReference name :: outsideBody back) := by
    rw [listedParameters_of_written h (hall rfl), expandedParameters_append, outsideBody_append]
    rfl
  -- the reference is a part of the form, and so the filter drops it
  have hlisted' : t'.listedParameters = .ok (outsideBody front ++ outsideBody back) := by
    rw [listedParameters_of_written h' (hall rfl), expandedParameters_append, outsideBody_append]
    rfl
  have hnames : t'.parameterNames = t.parameterNames := by
    rw [parameterNames, parameterNames, hparameters, hparameters', ok_bind, ok_bind,
      List.mapM_append, List.mapM_append, List.mapM_cons, List.mapM_cons,
      parameterName_formReference]
  refine ⟨hnames, hparameters, hparameters', fun components => ⟨?_, ?_⟩⟩
  · intro op hop
    obtain ⟨id, tags, parameters, body, responses, hlist, -, rfl⟩ := exists_of_rendered hop
    obtain rfl := Except.ok.inj (hlisted.symm.trans hlist)
    rw [get?_parameters, if_neg (by simp)]
  · exact rendered_withAttribute_parameters hlisted (by simp) hlisted' components

/-- A view of an operation with parameters. -/
def withoutResponses (parameters : List Value) : OperationView :=
  ofFields [("id", .str "A"), ("parameters", .seq parameters)]

/-- A reference between a parameter of the query and one of the form. -/
theorem rendered_withReference_between :
    let query : Value := .map [("name", .str "q"), ("in", .str "query"),
      ("schema", .single "type" (.str "string"))]
    let form : Value := .map [("name", .str "f")]
    let t := withoutResponses [query, .str "widget_id", form]
    let t' := t.withAttribute "parameters"
      (.seq [query, parameterReference "widget_id", form])
    t.written "parameters" = .seq ([query] ++ .str "widget_id" :: [form]) ∧
      (∀ v ∈ [query] ++ [form], (v.isStr || v.isMap) = true) ∧
      t'.parameterNames = t.parameterNames ∧
      t'.rendered = t.rendered.map (withParameters [query]) := by
  intro query form t t'
  have hwritten : t.written "parameters" = .seq ([query] ++ .str "widget_id" :: [form]) := by
    decide
  have hkinds : ∀ v ∈ [query] ++ [form], (v.isStr || v.isMap) = true := by decide
  obtain ⟨hnames, -, -, hrendered⟩ := rendered_withReference hwritten hkinds
  exact ⟨hwritten, hkinds, hnames, (hrendered .null).2⟩

/-- The only parameter is missing from the description if it is written as a reference. -/
theorem rendered_reference_dropped :
    let t := withoutResponses [.str "widget_id"]
    let t' := withoutResponses [parameterReference "widget_id"]
    t.parameters = .ok [parameterReference "widget_id"] ∧
      t'.parameters = .ok [formReference "widget_id"] ∧
      t.rendered = .ok [("operationId", .str "A"),
        ("parameters", .seq [parameterReference "widget_id"]), ("responses", .map [])] ∧
      t'.rendered = .ok [("operationId", .str "A"), ("responses", .map [])] := by
  intro t t'
  refine ⟨rfl, rfl, ?_, ?_⟩
  · rw [rendered_eq]
    rfl
  · rw [rendered_eq]
    rfl

end ApiTree.OperationView
