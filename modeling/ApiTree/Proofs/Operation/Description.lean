import ApiTree.Proofs.Operation.Rendered

/-!
# The parts of a description

A description is put together from parts that are read off the view one after another
(`rendered_eq`). Each part looks at a few attributes of the view only. So a view with another value
of one attribute has the same parts but for those that look at this attribute.
-/

set_option autoImplicit false

namespace ApiTree

namespace OperationView

variable (t : OperationView)

/-! ## Views with another value of an attribute -/

/-- The view with another value of an attribute. -/
def withAttribute (name : String) (v : Value) : OperationView :=
  { t with attributes := Fields.put name v t.attributes }

section

variable {name : String} (v : Value)

theorem written_withAttribute_self : (t.withAttribute name v).written name = v := by
  rw [written, withAttribute, Fields.getD, Fields.get?_put_self]
  rfl

theorem get?_withAttribute {other : String} (h : other ≠ name) :
    Fields.get? other (t.withAttribute name v).attributes = Fields.get? other t.attributes :=
  Fields.get?_put_of_ne h v t.attributes

theorem written_withAttribute {other : String} (h : other ≠ name) :
    (t.withAttribute name v).written other = t.written other := by
  rw [written, written, Fields.getD, Fields.getD, t.get?_withAttribute v h]

theorem operationId_withAttribute (h : name ∉ ["operationId", "operation", "api_version"]) :
    (t.withAttribute name v).operationId = t.operationId := by
  simp only [List.mem_cons, List.not_mem_nil, or_false, not_or] at h
  obtain ⟨hid, hoperation, hversion⟩ := h
  have hname : (t.withAttribute name v).operation = t.operation := by
    rw [operation, operation, writtenOrEmpty, writtenOrEmpty,
      t.get?_withAttribute v (Ne.symm hoperation)]
  have hlegacy : (t.withAttribute name v).isLegacy = t.isLegacy := by
    rw [isLegacy, isLegacy, hname]
    rfl
  rw [operationId, operationId, apiVersion, apiVersion, hname, hlegacy,
    t.written_withAttribute v (Ne.symm hid), t.written_withAttribute v (Ne.symm hversion)]

theorem tagNames_withAttribute (h : name ≠ "tags") :
    (t.withAttribute name v).tagNames = t.tagNames := by
  rw [tagNames, tagNames, t.written_withAttribute v (Ne.symm h)]

theorem listedParameters_withAttribute (h : name ≠ "parameters") :
    (t.withAttribute name v).listedParameters = t.listedParameters := by
  rw [listedParameters, listedParameters, parameters, parameters,
    t.written_withAttribute v (Ne.symm h)]

theorem requestBody_withAttribute (h : name ≠ "request_body") :
    (t.withAttribute name v).requestBody = t.requestBody := by
  rw [requestBody, requestBody, t.written_withAttribute v (Ne.symm h)]

theorem renderedBody_withAttribute (h : name ≠ "request_content_type") (body : Fields)
    (components : Value) :
    (t.withAttribute name v).renderedBody body components = t.renderedBody body components := by
  rw [renderedBody, renderedBody, consumes, consumes, t.written_withAttribute v (Ne.symm h)]

theorem masterExample_withAttribute (h : name ≠ "core-version") (response : Fields) :
    (t.withAttribute name v).masterExample response = t.masterExample response := by
  have hinherited : Fields.pick inheritedAttributes (t.withAttribute name v).attributes =
      Fields.pick inheritedAttributes t.attributes := by
    apply Entries.pick_put_of_not_mem
    simpa [inheritedAttributes] using h
  rw [masterExample, masterExample, hinherited]

theorem responseExamples_withAttribute (h : name ≠ "core-version") (response : Fields) :
    (t.withAttribute name v).responseExamples response = t.responseExamples response := by
  rw [responseExamples, responseExamples, t.masterExample_withAttribute v h]

end

/-! ## The description from its parts -/

/-- The entries of a description that stand before the parameters. -/
def headEntries (id : Option String) (tags : List String) : Fields :=
  entryIfAny "operationId" (.ofOption (id.map .str)) ++
    (Fields.pick ["summary", "description", "deprecated"] t.attributes).filter
      (fun e => !e.2.isNull) ++ entryIfAny "tags" (.seq (tags.map .str))

/-- The entries of a description that stand after the parameters. -/
def tailEntries (body : Option Value) (responses : Fields) : Fields :=
  entryIfAny "requestBody" (.ofOption body) ++ Fields.put "responses" (.map responses) []

/-- The body as the document describes it, if there is one. -/
def describedBody (components : Value) : Except Failure (Option Value) := do
  (← t.requestBody).mapM fun body => t.renderedBody body components

/-- The responses as the document describes them. -/
def describedResponses : Except Failure Fields := do renderedResponses (← t.examples)

theorem rendered_eq (components : Value) :
    t.rendered components = do
      let id ← t.operationId
      let tags ← t.tagNames.mapError .failed
      let parameters ← t.listedParameters.mapError .failed
      let body ← (t.describedBody components).mapError .failed
      let responses ← t.describedResponses.mapError .failed
      return t.headEntries id tags ++ entryIfAny "parameters" (.seq parameters) ++
        tailEntries body responses := by
  rw [rendered]
  congr 1
  funext id
  dsimp only
  congr 1
  funext tags
  congr 1
  funext parameters
  rw [describedBody]
  cases t.requestBody with
  | error f => rfl
  | ok body =>
    rw [ok_bind]
    simp only [Except.mapError, ok_bind, headEntries, tailEntries, describedResponses,
      List.append_assoc]

/-- A description consists of parts that can all be read off the view. -/
theorem exists_of_rendered {t : OperationView} {components : Value} {op : Fields}
    (h : t.rendered components = .ok op) :
    ∃ id tags parameters body responses,
      t.listedParameters = .ok parameters ∧ t.describedBody components = .ok body ∧
        op = t.headEntries id tags ++ entryIfAny "parameters" (.seq parameters) ++
          tailEntries body responses := by
  rw [rendered_eq] at h
  obtain ⟨id, -, h⟩ := bind_eq_ok.mp h
  obtain ⟨tags, -, h⟩ := bind_eq_ok.mp h
  obtain ⟨parameters, hparameters, h⟩ := bind_eq_ok.mp h
  obtain ⟨body, hbody, h⟩ := bind_eq_ok.mp h
  obtain ⟨responses, -, h⟩ := bind_eq_ok.mp h
  exact ⟨id, tags, parameters, body, responses, mapError_eq_ok.mp hparameters,
    mapError_eq_ok.mp hbody, (Except.ok.inj h).symm⟩

/-! ## The entries of a description -/

theorem get?_entryIfAny (key : String) (v : Value) :
    Fields.get? key (entryIfAny key v) = if v.isTruthy then some v else none := by
  rw [entryIfAny]
  split
  · rw [Fields.get?, Entries.get?, if_pos rfl]
  · rfl

theorem get?_entryIfAny_of_ne {key other : String} (h : key ≠ other) (v : Value) :
    Fields.get? key (entryIfAny other v) = none := by
  rw [entryIfAny]
  split
  · rw [Fields.get?, Entries.get?, if_neg fun heq => h (Value.str.inj heq).symm]
    rfl
  · rfl

/-- Neither the parameters nor the body stand in front of the parameters. -/
theorem get?_headEntries {key : String}
    (h : key ∉ ["operationId", "summary", "description", "deprecated", "tags"])
    (id : Option String) (tags : List String) : Fields.get? key (t.headEntries id tags) = none := by
  simp only [List.mem_cons, List.not_mem_nil, or_false, not_or] at h
  obtain ⟨hid, hsummary, hdescription, hdeprecated, htags⟩ := h
  have htexts : Fields.get? key ((Fields.pick ["summary", "description", "deprecated"]
      t.attributes).filter fun e => !e.2.isNull) = none := by
    apply Entries.get?_eq_none_iff.mpr
    intro hmem
    have hpicked := (List.filter_sublist.map Prod.fst).subset hmem
    have hkeys := (Entries.keys_pick_sublist _ _).subset hpicked
    simp [hsummary, hdescription, hdeprecated] at hkeys
  rw [headEntries, Fields.get?, Entries.get?_append, Entries.get?_append]
  change ((Fields.get? key _).or (Fields.get? key _)).or (Fields.get? key _) = none
  rw [get?_entryIfAny_of_ne hid, get?_entryIfAny_of_ne htags, htexts]
  rfl

theorem get?_parameters (id : Option String) (tags : List String) (parameters : List Value)
    (body : Option Value) (responses : Fields) :
    Fields.get? "parameters" (t.headEntries id tags ++
      entryIfAny "parameters" (.seq parameters) ++ tailEntries body responses) =
        if parameters.isEmpty then none else some (.seq parameters) := by
  have htail : Fields.get? "parameters" (tailEntries body responses) = none := by
    rw [tailEntries, Fields.get?, Entries.get?_append, ← Fields.get?,
      get?_entryIfAny_of_ne (by decide)]
    rfl
  rw [Fields.get?, Entries.get?_append, Entries.get?_append, ← Fields.get?, ← Fields.get?,
    ← Fields.get?, t.get?_headEntries (by decide), get?_entryIfAny, htail]
  cases parameters <;> rfl

theorem get?_requestBody (id : Option String) (tags : List String) (parameters : List Value)
    (body : Option Value) (responses : Fields) :
    Fields.get? "requestBody" (t.headEntries id tags ++
      entryIfAny "parameters" (.seq parameters) ++ tailEntries body responses) =
        if (Value.ofOption body).isTruthy then some (.ofOption body) else none := by
  rw [tailEntries, Fields.get?, Entries.get?_append, Entries.get?_append, Entries.get?_append,
    ← Fields.get?, ← Fields.get?, ← Fields.get?, ← Fields.get?, t.get?_headEntries (by decide),
    get?_entryIfAny_of_ne (by decide), get?_entryIfAny]
  cases (Value.ofOption body).isTruthy <;> rfl

/-! ## The parts that look at other attributes -/

section

variable {name : String} (v : Value)

theorem headEntries_withAttribute (h : name ∉ ["summary", "description", "deprecated"]) :
    (t.withAttribute name v).headEntries = t.headEntries := by
  have htexts : Fields.pick ["summary", "description", "deprecated"]
      (t.withAttribute name v).attributes =
        Fields.pick ["summary", "description", "deprecated"] t.attributes := by
    apply Entries.pick_put_of_not_mem
    simpa using h
  funext id tags
  rw [headEntries, headEntries, htexts]

theorem describedBody_withAttribute (h : name ∉ ["request_body", "request_content_type"]) :
    (t.withAttribute name v).describedBody = t.describedBody := by
  simp only [List.mem_cons, List.not_mem_nil, or_false, not_or] at h
  funext components
  rw [describedBody, describedBody, t.requestBody_withAttribute v h.1]
  simp only [t.renderedBody_withAttribute v h.2]

theorem describedResponses_withAttribute (h : name ∉ ["responses", "core-version"]) :
    (t.withAttribute name v).describedResponses = t.describedResponses := by
  simp only [List.mem_cons, List.not_mem_nil, or_false, not_or] at h
  have htests : (t.withAttribute name v).responseExamples = t.responseExamples :=
    funext (t.responseExamples_withAttribute v h.2)
  rw [describedResponses, describedResponses, examples, examples, responses, responses,
    t.written_withAttribute v (Ne.symm h.1), htests]

end

end OperationView
end ApiTree
