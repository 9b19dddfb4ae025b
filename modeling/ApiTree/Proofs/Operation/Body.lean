import ApiTree.Proofs.Operation.Description
import ApiTree.Proofs.Schema.Pointer

/-!
# Bodies that are named

A body that is written as the name of a component links the examples of a component. The name
becomes a part of a reference as it is, and is read off the reference as a segment of a pointer. A
name with a slash is no segment, and then nothing is linked. Another name is read as the key that it
stands for, and the examples are those of the component with this key (`rendered_of_namesBody`).
That is the component of the name itself only if nothing in the name looks like an escaped
character.
-/

set_option autoImplicit false

namespace ApiTree

theorem Fields.get?_putNew_of_ne {key other : String} (h : key ≠ other) (v : Value)
    (entries : Fields) :
    Fields.get? key (Fields.putNew other v entries) = Fields.get? key entries := by
  rw [Fields.get?, Fields.putNew, Entries.get?_putNew, if_neg (by simpa using Ne.symm h)]
  rfl

namespace OperationView

/-! ## Names in references -/

theorem unescape_eq_self {cs : List Char} (hslash : ¬ ['~', '1'] <:+: cs)
    (htilde : ¬ ['~', '0'] <:+: cs) : unescape cs = cs := by
  induction cs with
  | nil => rfl
  | cons c cs ih =>
    have hrest := ih (fun h => hslash (h.trans (List.suffix_cons c cs).isInfix))
      (fun h => htilde (h.trans (List.suffix_cons c cs).isInfix))
    unfold unescape
    split
    · next heq =>
      rw [heq] at hslash
      exact absurd (List.prefix_append ['~', '1'] _).isInfix hslash
    · next heq =>
      rw [heq] at htilde
      exact absurd (List.prefix_append ['~', '0'] _).isInfix htilde
    · next heq =>
      obtain ⟨rfl, rfl⟩ := List.cons.inj heq
      rw [hrest]
    · next heq => cases heq

/-- A key that is written as a segment of a pointer is read back. -/
theorem unescape_escape (key : String) : unescape (Pointer.escape key).toList = key.toList := by
  rw [← Pointer.decode_eq_unescape, Pointer.decode_escape]

/-- The reference that a name of a body becomes. -/
def bodyReference (name : String) : String := bodyPrefix ++ name ++ schemaSuffix

theorem toList_bodyReference (name : String) :
    (bodyReference name).toList = bodyPrefix.toList ++ name.toList ++ schemaSuffix.toList := by
  rw [bodyReference, String.toList_append, String.toList_append]

theorem expandSchema_of_name {fields : Fields} {name : String}
    (h : Fields.getD "schema" fields = .str name) :
    expandSchema "requestBodies" fields =
      .ok (Fields.put "schema" (.reference (bodyReference name)) fields) := by
  rw [expandSchema, h]
  rfl

/-- The name is read off the reference as it was written, if it is a segment. -/
theorem bodyComponent?_bodyReference (name : String) :
    bodyComponent? (bodyReference name) =
      if !name.toList.isEmpty && !name.toList.contains '/' then some name else none := by
  have hlast : (bodyReference name).toList.getLast? ≠ some '\n' := by
    rw [toList_bodyReference, List.getLast?_append_of_ne_nil _ (by decide)]
    decide
  have hdrop : (bodyReference name).toList.drop bodyPrefix.length =
      name.toList ++ schemaSuffix.toList := by
    rw [toList_bodyReference, List.append_assoc]
    exact List.drop_left
  have hlength : (bodyReference name).toList.length - bodyPrefix.length - schemaSuffix.length =
      name.toList.length := by
    rw [toList_bodyReference, List.length_append, List.length_append, ← String.length_toList,
      ← String.length_toList]
    omega
  rw [bodyComponent?, if_neg hlast, hdrop, hlength, List.take_left, ← toList_bodyReference,
    String.ofList_toList]
  simp only [decide_true, Bool.true_and]

/-! ## Linked examples -/

/-- The reference to an example of the body of the given name. -/
def exampleReference (name : String) (key : Value) : Value :=
  .reference (bodyPrefix ++ name ++ "/content/application~1json/examples/" ++
    Pointer.escape key.text)

/-- References to all examples of a component. -/
def linked (name : String) (examples : Fields) : Fields :=
  examples.map fun e => (e.1, exampleReference name e.1)

/-- A key of what is not empty leads to what is there, or to null. -/
theorem eq_of_lookup_orElse {v w : Value} {key : String}
    (h : (v.orElse (.map [])).lookup key = .ok w) : w = .ofOption (v.member? key) := by
  rw [Value.orElse] at h
  split at h
  · cases v with
    | map entries => exact (Except.ok.inj h).symm
    | _ => cases h
  · next hempty =>
    rw [← Except.ok.inj h]
    cases v with
    | map entries =>
      cases entries with
      | nil => rfl
      | cons e entries => exact absurd rfl hempty
    | _ => rfl

/-- What keys lead to is what is there, or null. -/
theorem eq_of_descend {v r : Value} {keys : List String} (h : descend v keys = .ok r) :
    r = .ofOption (v.at? keys) := by
  induction keys generalizing v with
  | nil => exact (Except.ok.inj h).symm
  | cons key keys ih =>
    obtain ⟨w, hw, hrest⟩ := bind_eq_ok.mp h
    rw [ih hrest, eq_of_lookup_orElse hw, Value.at?]
    cases v.member? key with
    | some x => rfl
    | none =>
      -- the remaining keys are looked up in null
      cases keys with
      | nil => rfl
      | cons key keys => rfl

/-- Where there are no examples there are none to link. -/
theorem entriesOf_ofOption_eq_nil {v : Option Value}
    (h : ∀ entries ≠ [], v ≠ some (.map entries)) : entriesOf (.ofOption v) = [] := by
  cases v with
  | none => rfl
  | some found =>
    cases found with
    | map entries =>
      by_contra hentries
      exact h entries hentries rfl
    | _ => rfl

/-- Without its end the reference to a schema leads to what is said under JSON. -/
theorem take_bodyReference (name : String) :
    String.ofList ((bodyReference name).toList.take
      ((bodyReference name).length - "schema".length)) =
        bodyPrefix ++ name ++ "/content/application~1json/" := by
  have hsuffix : schemaSuffix = "/content/application~1json/" ++ "schema" := rfl
  rw [bodyReference, hsuffix, ← String.append_assoc, String.toList_append, String.length_append,
    Nat.add_sub_cancel, ← String.length_toList, List.take_left, String.ofList_toList]

/-- The examples of the component whose key the name stands for are linked. -/
theorem componentExamples_bodyReference (name : String) (components : Value) :
    componentExamples (.reference (bodyReference name)) components =
      if !name.toList.isEmpty && !name.toList.contains '/' then
        (descend components (examplesOfBody name)).map fun v => linked name (entriesOf v)
      else .ok [] := by
  have hmember : (Value.reference (bodyReference name)).member? "$ref" =
      some (.str (bodyReference name)) := rfl
  have hplace : bodyPrefix ++ name ++ "/content/application~1json/" ++ "examples/" =
      bodyPrefix ++ name ++ "/content/application~1json/examples/" := by
    rw [String.append_assoc]
    rfl
  rw [componentExamples, hmember]
  dsimp only
  rw [bodyComponent?_bodyReference, take_bodyReference, hplace]
  cases !name.toList.isEmpty && !name.toList.contains '/' with
  | false => rfl
  | true =>
    cases htruthy : components.isTruthy with
    | false =>
      have hnull : descend components (examplesOfBody name) = .ok .null := by
        rw [examplesOfBody, descend, Value.orElse, htruthy]
        rfl
      rw [hnull]
      rfl
    | true =>
      have helse : components.orElse (.map []) = components := by
        rw [Value.orElse, if_pos htruthy]
      simp only [examplesOfBody, descend, helse, if_true, Bool.not_true, Bool.false_eq_true,
        if_false, map_of_bind]
      -- the same five steps, after which the examples are linked
      iterate 4 refine bind_congr fun _ => ?_
      apply bind_congr
      intro examples
      cases examples <;> rfl

/-! ## Bodies in a description -/

variable {t : OperationView}

/-- The body of the request is written as the name of a component, or has it as its schema. -/
def NamesBody (t : OperationView) (name : String) : Prop :=
  t.written "request_body" = .str name ∨
    ∃ fields, t.written "request_body" = .map fields ∧
      Fields.get? "schema" fields = some (.str name)

theorem NamesBody.exists_requestBody {name : String} (h : t.NamesBody name) :
    ∃ body, t.requestBody = .ok (some body) ∧
      Fields.getD "schema" body = .reference (bodyReference name) := by
  -- either way there are entries whose schema is the name
  obtain ⟨fields, hschema, hbody⟩ : ∃ fields, Fields.getD "schema" fields = .str name ∧
      t.requestBody = (do
        let expanded ← expandSchema "requestBodies" fields
        return some (Fields.putNew "examples" (.str "request_body") expanded)) := by
    rcases h with h | ⟨fields, h, hschema⟩
    · refine ⟨[("schema", .str name)], rfl, ?_⟩
      rw [requestBody, h]
      rfl
    · refine ⟨fields, congrArg Value.ofOption hschema, ?_⟩
      have hhas : Fields.has "schema" fields = true := Option.isSome_of_eq_some hschema
      rw [requestBody, h]
      simp only [hhas, if_true]
      rw [Option.mapM_some, map_eq_pure_bind, bind_assoc]
      rfl
  have hne : "schema" ≠ "examples" := by decide
  rw [expandSchema_of_name hschema, ok_bind] at hbody
  refine ⟨_, hbody, ?_⟩
  rw [Fields.getD, Fields.get?_putNew_of_ne hne, Fields.get?_put_self]
  rfl

/-- Under each media type stands the same. -/
theorem eq_of_mem_contentOf {types : List Value} {media : Value} {content : Fields}
    (h : contentOf types media = .ok content) : ∀ e ∈ content, e.2 = media := by
  intro e he
  have hkeys : ∀ type ∈ types, type.isKey = true := succeeds_contentOf.mp ⟨content, h⟩
  obtain ⟨entries, hentries, hmedia⟩ : ∃ entries, types.mapM (fun type =>
      if type.isKey then (.ok (type, media) : Except Failure (Value × Value))
      else .error .wrongKind) = .ok entries ∧ ∀ p ∈ entries, p.2 = media := by
    apply exists_mapM_ok_forall.mpr
    intro type htype
    rw [if_pos (hkeys type htype)]
    exact ⟨(type, media), rfl, rfl⟩
  rw [contentOf, hentries] at h
  rw [← Except.ok.inj h] at he
  obtain ⟨p, hp, hvalue⟩ := Entries.exists_of_mem_ofPairsBy he
  rw [hvalue, hmedia p hp]

/-- The body that is described for a name says the same under each media type. -/
theorem NamesBody.get?_requestBody {name : String} (hbody : t.NamesBody name) {components : Value}
    {op : Fields} (h : t.rendered components = .ok op) :
    ∃ examples content rest,
      componentExamples (.reference (bodyReference name)) components = .ok examples ∧
      Fields.get? "requestBody" op = some (.map (("content", .map content) :: rest)) ∧
      ∀ e ∈ content, e.2 = .map (("schema", .reference (bodyReference name)) ::
        entryIfAny "examples" (.map examples)) := by
  obtain ⟨id, tags, parameters, described?, responses, -, hdescribed, rfl⟩ := exists_of_rendered h
  obtain ⟨body, hrequest, hschema⟩ := hbody.exists_requestBody
  rw [describedBody, hrequest, ok_bind, Option.mapM_some, map_eq_pure_bind] at hdescribed
  obtain ⟨described, hrendered, hdescribed⟩ := bind_eq_ok.mp hdescribed
  rw [renderedBody, hschema] at hrendered
  obtain ⟨examples, hexamples, hrendered⟩ := bind_eq_ok.mp hrendered
  obtain ⟨content, hcontent, hrendered⟩ := bind_eq_ok.mp hrendered
  rw [OperationView.get?_requestBody, ← Except.ok.inj hdescribed, ← Except.ok.inj hrendered]
  exact ⟨examples, content, _, hexamples, rfl, eq_of_mem_contentOf hcontent⟩

theorem get?_examples_entryIfAny (schema : Value) (examples : Fields) :
    Fields.get? "examples" (("schema", schema) :: entryIfAny "examples" (.map examples)) =
      if examples.isEmpty then none else some (.map examples) := by
  have hrest : Fields.get? "examples"
      (("schema", schema) :: entryIfAny "examples" (.map examples)) =
        Fields.get? "examples" (entryIfAny "examples" (.map examples)) := rfl
  rw [hrest, get?_entryIfAny]
  cases examples <;> rfl

/-- A body that is named links, under each media type, the examples of the component whose key the
name stands for, in their order, and none if the name has a slash. A name in which nothing looks
like an escaped character stands for itself, and a key that is written as in a pointer for the
key. -/
theorem rendered_of_namesBody {name : String} (hbody : t.NamesBody name) (hne : name ≠ "")
    {components : Value} {op : Fields} (h : t.rendered components = .ok op) :
    (∃ body content, Fields.get? "requestBody" op = some (.map body) ∧
      Fields.get? "content" body = some (.map content) ∧
      ∀ e ∈ content, ∃ media, e.2 = .map media ∧
        Fields.get? "schema" media = some (.reference (bodyReference name)) ∧
        ('/' ∈ name.toList → Fields.get? "examples" media = none) ∧
        ('/' ∉ name.toList →
          (∀ examples ≠ [], components.at? (examplesOfBody name) = some (.map examples) →
            Fields.get? "examples" media = some (.map (linked name examples))) ∧
          ((∀ examples ≠ [], components.at? (examplesOfBody name) ≠ some (.map examples)) →
            Fields.get? "examples" media = none))) ∧
    (¬ ['~', '1'] <:+: name.toList → ¬ ['~', '0'] <:+: name.toList → examplesOfBody name =
      ["requestBodies", name, "content", "application/json", "examples"]) ∧
    ∀ key, name = Pointer.escape key → examplesOfBody name =
      ["requestBodies", key, "content", "application/json", "examples"] := by
  obtain ⟨found, content, rest, hfound, hop, hcontent⟩ := hbody.get?_requestBody h
  rw [componentExamples_bodyReference] at hfound
  refine ⟨⟨_, content, hop, rfl, fun e he => ⟨_, hcontent e he, rfl, ?_, ?_⟩⟩, ?_, ?_⟩
  · intro hslash
    rw [List.contains_iff_mem.mpr hslash, Bool.not_true, Bool.and_false] at hfound
    rw [get?_examples_entryIfAny, ← Except.ok.inj hfound]
    rfl
  · intro hslash
    have hsegment : (!name.toList.isEmpty && !name.toList.contains '/') = true := by
      simp [hne, hslash]
    rw [hsegment, if_pos rfl] at hfound
    obtain ⟨v, hv, rfl⟩ := map_eq_ok.mp hfound
    rw [get?_examples_entryIfAny, eq_of_descend hv]
    constructor
    · intro examples hnonempty hexamples
      have hlinked : (linked name examples).isEmpty = false := by
        simpa [linked] using hnonempty
      rw [hexamples, Value.ofOption, Option.getD_some, entriesOf, hlinked]
      rfl
    · intro hnone
      rw [entriesOf_ofOption_eq_nil hnone]
      rfl
  · intro hslash htilde
    rw [examplesOfBody, unescape_eq_self hslash htilde, String.ofList_toList]
  · rintro key rfl
    rw [examplesOfBody, unescape_escape, String.ofList_toList]

/-- A view of an operation whose body is named. -/
def oneBody (name : String) : OperationView :=
  ofFields [("id", .str "A"), ("request_body", .str name)]

/-- Components with the examples of one body. -/
def bodyWith (name : String) (examples : Fields) : Value :=
  .single "requestBodies" (.single name (.single "content"
    (.single "application/json" (.single "examples" (.map examples)))))

/-- The description of an operation with a body that says one thing under JSON. -/
def oneBodyDescription (media : Fields) : Fields :=
  [("operationId", .str "A"),
    ("requestBody", .map [("content", .single "application/json" (.map media)),
      ("required", .bool true)]),
    ("responses", .map [])]

/-- The examples of a component whose name has nothing to escape, though one of its examples has. -/
theorem rendered_of_namesBody_widget :
    let examples : Fields := [("small", .int 1), ("a/b", .int 2)]
    let components := bodyWith "widget" examples
    let op := oneBodyDescription [("schema", .reference (bodyReference "widget")),
      ("examples", .map (linked "widget" examples))]
    (oneBody "widget").NamesBody "widget" ∧ "widget" ≠ "" ∧
      (oneBody "widget").rendered components = .ok op ∧
      ∃ body content, Fields.get? "requestBody" op = some (.map body) ∧
        Fields.get? "content" body = some (.map content) ∧
        ∀ e ∈ content, ∃ media, e.2 = .map media ∧
          Fields.get? "examples" media = some (.map (linked "widget" examples)) := by
  intro examples components op
  have hbody : (oneBody "widget").NamesBody "widget" := .inl (by decide)
  have hop : (oneBody "widget").rendered components = .ok op := by
    rw [rendered_eq]
    rfl
  have hplace : components.at? (examplesOfBody "widget") = some (.map examples) := by rfl
  obtain ⟨⟨body, content, hrequest, hcontent, hmedia⟩, -⟩ :=
    rendered_of_namesBody hbody (by decide) hop
  refine ⟨hbody, by decide, hop, body, content, hrequest, hcontent, fun e he => ?_⟩
  obtain ⟨media, heq, -, -, hlinked⟩ := hmedia e he
  exact ⟨media, heq, (hlinked (by decide)).1 examples (by simp [examples]) hplace⟩

/-- Nothing is linked for a name with a slash, though there is a component of this name. -/
theorem rendered_oneBody_slash :
    let components := bodyWith "a/b" [("x", .int 1)]
    components.at? ["requestBodies", "a/b", "content", "application/json", "examples"] =
        some (.map [("x", .int 1)]) ∧
      (oneBody "a/b").rendered components =
        .ok (oneBodyDescription [("schema", .reference (bodyReference "a/b"))]) := by
  intro components
  refine ⟨by decide, ?_⟩
  rw [rendered_eq]
  rfl

end OperationView
end ApiTree
