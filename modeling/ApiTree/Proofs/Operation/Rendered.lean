import ApiTree.Proofs.Except
import ApiTree.Proofs.Operation.View
import ApiTree.Proofs.Reference.Expansion

/-!
# Which views can be rendered

A document can describe an operation if what its fragment writes has a certain shape
(`rendered_fails_iff`). The shape is read off the steps of the rendering, one after another; of all
that a fragment may write only a few attributes matter, and of the components of the document only
those on the way to the examples of a body.
-/

set_option autoImplicit false

namespace ApiTree

theorem Fields.get?_put_self (key : String) (v : Value) (entries : Fields) :
    Fields.get? key (Fields.put key v entries) = some v :=
  Entries.get?_put_self _ _ _

theorem Fields.get?_put_of_ne {key other : String} (h : key ≠ other) (v : Value)
    (entries : Fields) : Fields.get? key (Fields.put other v entries) = Fields.get? key entries :=
  Entries.get?_put_of_ne (fun heq => h (Value.str.inj heq).symm) v entries

/-- The value has elements. -/
def Value.hasElements : Value → Bool
  | .seq _ | .set _ | .map _ | .str _ | .bytes _ | .pair _ _ => true
  | _ => false

theorem Value.succeeds_elements {v : Value} : Succeeds v.elements ↔ v.hasElements = true := by
  cases v <;> simp [elements, hasElements]

theorem Value.succeeds_toText {v : Value} : Succeeds v.toText ↔ v.hasLiteral = true := by
  rw [toText]
  split
  · next h => simp [h]
  · next h => simp [h]

theorem Reference.succeeds_expandAt {path : List String} (hpath : 2 ≤ path.length) (v : Value) :
    Succeeds (expandAt path v) :=
  ⟨_, expandAt_of_expandable (expandable_of_length hpath v)⟩

namespace OperationView

/-- The schema of a component can always be expanded. -/
theorem exists_expandSchema (kind : String) (fields : Fields) :
    ∃ schema, expandSchema kind fields = .ok (Fields.put "schema" schema fields) := by
  obtain ⟨schema, hschema⟩ := Reference.succeeds_expandAt
    (show 2 ≤ ["components", kind, "x", "schema"].length by simp)
    (Fields.getD "schema" fields)
  refine ⟨schema, ?_⟩
  rw [expandSchema, hschema]
  rfl

/-! ## Tags and parameters -/

variable {t : OperationView}

theorem succeeds_tagNames : Succeeds t.tagNames ↔
    ∀ tag ∈ ((t.written "tags").orElse (.seq [])).toLeaves, tag.hasLiteral = true := by
  rw [tagNames, succeeds_mapM]
  exact forall₂_congr fun tag _ => Value.succeeds_toText

theorem isMap_reference (target : String) : (Value.reference target).isMap = true := rfl

/-- A text and a mapping are parameters. They become mappings, and nothing else does. -/
theorem isMap_of_expandParameter {v p : Value} (h : expandParameter v = .ok p) :
    p.isMap = true ↔ (v.isStr || v.isMap) = true := by
  cases v with
  | str name =>
    obtain rfl := Except.ok.inj h
    simp [isMap_reference, Value.isStr]
  | map fields =>
    rw [expandParameter] at h
    obtain ⟨hasContent, -, hexpanded⟩ := bind_eq_ok.mp h
    split at hexpanded
    · obtain rfl := Except.ok.inj hexpanded
      simp [Value.isMap]
    · obtain rfl := Except.ok.inj hexpanded
      simp [Value.isMap]
  | _ =>
    -- a value that lists `content` is kept as it is
    simp only [expandParameter] at h
    obtain ⟨hasContent, -, hexpanded⟩ := bind_eq_ok.mp h
    split at hexpanded
    · obtain rfl := Except.ok.inj hexpanded
      simp [Value.isMap, Value.isStr]
    · cases hexpanded

theorem succeeds_lookup {key : String} {v : Value} : Succeeds (v.lookup key) ↔ v.isMap = true := by
  cases v <;> simp [Value.lookup, Value.isMap]

theorem succeeds_expandParameter {v : Value} (h : (v.isStr || v.isMap) = true) :
    Succeeds (expandParameter v) := by
  cases v with
  | str name => exact succeeds_ok _
  | map fields =>
    rw [expandParameter, Value.hasElement]
    cases hcontent : Fields.has "content" fields
    · exact ⟨_, rfl⟩
    · exact ⟨_, rfl⟩
  | _ => cases h

/-- Parameters are listed if each of them is a text or a mapping. -/
theorem succeeds_listedParameters : Succeeds t.listedParameters ↔
    ∀ v ∈ (t.written "parameters").toItems, (v.isStr || v.isMap) = true := by
  have hbody (p : Value) : Succeeds ((!·) <$> isBodyParameter p) ↔ p.isMap = true := by
    rw [map_eq_pure_bind, succeeds_bind_of_forall fun _ => succeeds_pure _, isBodyParameter,
      succeeds_bind_of_forall fun _ => succeeds_pure _, succeeds_lookup]
  rw [listedParameters, succeeds_bind]
  simp only [succeeds_filterM, hbody]
  rw [parameters, exists_mapM_ok_forall]
  refine forall₂_congr fun v _ => ⟨?_, fun hv => ?_⟩
  · rintro ⟨p, hp, hmap⟩
    exact (isMap_of_expandParameter hp).mp hmap
  · obtain ⟨p, hp⟩ := succeeds_expandParameter hv
    exact ⟨p, hp, (isMap_of_expandParameter hp).mpr hv⟩

/-! ## The body of a request -/

/-- A body can always be made out. -/
theorem succeeds_requestBody : Succeeds t.requestBody := by
  rw [requestBody]
  refine succeeds_mapM_option.mpr fun fields _ => ?_
  obtain ⟨schema, hschema⟩ := exists_expandSchema "requestBodies" fields
  rw [hschema]
  exact ⟨_, rfl⟩

/-- Each key leads on to a mapping, as far as anything is found. -/
def Opens (v : Value) : List String → Prop
  | [] => True
  | key :: keys =>
    v.isTruthy = true → ∃ entries, v = .map entries ∧ Opens (Fields.getD key entries) keys

/-- What keys lead to; what is empty leads to nothing. -/
def descend (v : Value) : List String → Except Failure Value
  | [] => .ok v
  | key :: keys => do descend (← (v.orElse (.map [])).lookup key) keys

theorem succeeds_descend {v : Value} {keys : List String} :
    Succeeds (descend v keys) ↔ Opens v keys := by
  induction keys generalizing v with
  | nil => simp [descend, Opens]
  | cons key keys ih =>
    rw [descend, succeeds_bind]
    simp only [ih]
    rw [Opens, Value.orElse]
    cases htruthy : v.isTruthy with
    | false =>
      -- an empty value leads to null, and null to nothing
      have hnull : Opens .null keys := by
        cases keys with
        | nil => trivial
        | cons => exact fun h => by cases h
      exact iff_of_true ⟨.null, rfl, hnull⟩ (fun h => by cases h)
    | true =>
      rw [if_pos rfl]
      cases v <;> simp [Value.lookup]

/-- The keys that lead to the examples of the body that is the component of the given name. -/
def examplesOfBody (name : String) : List String :=
  ["requestBodies", String.ofList (unescape name.toList), "content", "application/json", "examples"]

/-- The component whose schema a schema refers to. -/
def referredBody? (schema : Value) : Option String :=
  match schema.member? "$ref" with
  | some (.str reference) => bodyComponent? reference
  | _ => none

/-- The examples of the body that a schema refers to are found if the way to them is open. -/
theorem succeeds_componentExamples {schema components : Value} :
    Succeeds (componentExamples schema components) ↔
      ∀ name ∈ referredBody? schema, Opens components (examplesOfBody name) := by
  rw [componentExamples, referredBody?]
  cases schema.member? "$ref" with
  | none => simp
  | some target =>
    cases target with
    | str reference =>
      simp only
      cases bodyComponent? reference with
      | none => simp
      | some name =>
        simp only [Option.mem_def, Option.some.injEq, forall_eq']
        cases htruthy : components.isTruthy with
        | false => simp [Opens, examplesOfBody, htruthy]
        | true =>
          rw [← succeeds_descend, examplesOfBody]
          simp only [descend, Value.orElse, htruthy, if_true, Bool.not_true, Bool.false_eq_true,
            if_false, succeeds_bind]
          -- the same five steps, after which nothing fails
          iterate 5 refine exists_congr fun _ => and_congr_right fun _ => ?_
          split
          · simp
          · simp
    | _ => simp

theorem succeeds_contentOf {types : List Value} {media : Value} :
    Succeeds (contentOf types media) ↔ ∀ type ∈ types, type.isKey = true := by
  rw [contentOf, succeeds_bind_of_forall fun _ => succeeds_pure _, succeeds_mapM]
  refine forall₂_congr fun type _ => ?_
  cases type.isKey <;> simp

theorem succeeds_renderedBody {body : Fields} {components : Value} :
    Succeeds (t.renderedBody body components) ↔
      (∀ name ∈ referredBody? (Fields.getD "schema" body),
        Opens components (examplesOfBody name)) ∧ ∀ type ∈ t.consumes, type.isKey = true := by
  rw [renderedBody, succeeds_bind]
  simp only [succeeds_bind_of_forall fun _ => succeeds_pure _, succeeds_contentOf]
  rw [exists_and_right, ← Succeeds, succeeds_componentExamples]

/-! ## Responses -/

/-- The entries that are written for a response. -/
def entriesOf : Value → Fields
  | .map entries => entries
  | _ => []

theorem succeeds_statusText {status : Value} :
    Succeeds (statusText status) ↔ status.hasLiteral = true := by
  rw [statusText]
  cases status with
  | null => simp [Value.isNull, Value.hasLiteral]
  | _ =>
    rw [if_neg (by simp [Value.isNull]), succeeds_map, Value.succeeds_toText]

/-- A response can be completed if the status that is written in it can be written out. -/
theorem succeeds_completeResponse {status response : Value} (hstatus : status.hasLiteral = true) :
    Succeeds (completeResponse status response) ↔
      (Fields.getD "status" (entriesOf response)).hasLiteral = true := by
  have hentries : completeResponse status response =
      completeResponse status (.map (entriesOf response)) := by
    cases response <;> rfl
  rw [hentries, completeResponse]
  dsimp only
  rw [succeeds_bind_of_forall fun _ => succeeds_pure _, succeeds_statusText]
  split
  · next hnull =>
    rw [Fields.getD, Fields.get?, Fields.put, Entries.get?_put_self]
    have hown : Fields.getD "status" (entriesOf response) = .null := by
      cases hvalue : Fields.getD "status" (entriesOf response) <;> simp_all [Value.isNull]
    rw [hown]
    exact iff_of_true hstatus rfl
  · rfl

/-- The responses that a value writes, by status or in a list. -/
def responsesOf : Value → Except Failure (List Value)
  | .map entries => .ok (entries.map Prod.snd)
  | v => v.elements

theorem succeeds_responses : Succeeds t.responses ↔
    ∃ written, responsesOf ((t.written "responses").orElse (.map [])) = .ok written ∧
      ∀ v ∈ written, (Fields.getD "status" (entriesOf v)).hasLiteral = true := by
  rw [responses]
  generalize (t.written "responses").orElse (.map []) = v
  cases v with
  | map entries =>
    simp only [succeeds_mapM, responsesOf, Except.ok.injEq, exists_eq_left', List.forall_mem_map]
    exact forall₂_congr fun e _ => succeeds_completeResponse rfl
  | _ =>
    simp only [succeeds_bind, succeeds_mapM, responsesOf]
    refine exists_congr fun written => and_congr_right fun _ => ?_
    exact forall₂_congr fun v _ => succeeds_completeResponse rfl

/-! ## Tests -/

/-- What the tests of a response start from. -/
def testOf (t : OperationView) (response : Fields) : Fields :=
  Entries.putAll (Fields.pick inheritedAttributes t.attributes)
    (Entries.putAll (Fields.erase "examples" response) exampleDefaults)

/-- A test has at a key the value of the last layer with this key: what all tests of the operation
have, then the response, then the defaults. -/
theorem get?_testOf_layers (t : OperationView) (key : Value) (response : Fields) :
    Entries.get? key (testOf t response) =
      (if key = .str "core-version" then Entries.get? key t.attributes else none).or
        ((Entries.get? key (Entries.ofPairs (Fields.erase "examples" response))).or
          (Entries.get? key exampleDefaults)) := by
  have hpick : (Entries.keys (Fields.pick inheritedAttributes t.attributes)).Nodup :=
    (List.nodup_singleton _).sublist (Entries.keys_pick_sublist _ t.attributes)
  have hkey : key ∈ inheritedAttributes.map Value.str ↔ key = .str "core-version" :=
    List.mem_singleton
  have hinherited : Entries.get? key (Fields.pick inheritedAttributes t.attributes) =
      if key = .str "core-version" then Entries.get? key t.attributes else none := by
    rw [Fields.pick, Entries.get?_pick]
    simp only [hkey]
  rw [testOf, Entries.get?_putAll_of_nodup key hpick, hinherited, Entries.get?_putAll]

/-- A test starts from what the response writes and then from the defaults. Of two entries with one
key the last one counts. -/
theorem get?_testOf (t : OperationView) {key : String} (hkey : key ≠ "core-version" ∧ key ≠ "examples")
    (response : Fields) : Fields.get? key (testOf t response) =
      (Fields.get? key (Entries.ofPairs response)).or (Fields.get? key exampleDefaults) := by
  have hversion : Value.str key ≠ .str "core-version" := by simpa using hkey.1
  rw [Fields.get?, get?_testOf_layers, if_neg hversion, Option.none_or, Fields.erase,
    Entries.get?_ofPairs_erase (by simpa using hkey.2.symm)]
  rfl

theorem succeeds_withDataCheck {after : Value} : Succeeds (withDataCheck after) ↔
    (after.isTruthy = true → after.hasElements = true) := by
  rw [withDataCheck, succeeds_bind_of_forall fun _ => succeeds_pure _, Value.succeeds_elements,
    Value.orElse]
  cases after.isTruthy
  · simp [Value.hasElements]
  · simp

/-- The steps after the test of a response can be gone through where the look at the data is one of
them. -/
def StepsShape (response : Fields) : Prop :=
  let written := Entries.ofPairs response
  Fields.getD "status" written = .str "200" → Fields.getD dataCheck written ≠ .bool false →
    (Fields.getD "after" written).isTruthy = true → (Fields.getD "after" written).hasElements = true

/-- A master example with the steps after it looked at. -/
def withSteps (master : Fields) : Except Failure Fields :=
  if Fields.getD "status" master = .str "200" && Fields.getD dataCheck master ≠ .bool false then
    (withDataCheck (Fields.getD "after" master)).map fun after => Fields.put "after" after master
  else .ok master

/-- A master example with the given schema before the steps after it are looked at. -/
def masterOn (t : OperationView) (schema : Value) (response : Fields) : Fields :=
  Fields.put "schema" schema (Fields.put "master_example" (.bool true) (testOf t response))

theorem masterExample_eq (t : OperationView) (response : Fields) :
    t.masterExample response =
      expandSchema "responses" (Fields.put "master_example" (.bool true) (testOf t response)) >>=
        withSteps := by
  rw [masterExample, ← testOf]
  rfl

theorem exists_masterOn (t : OperationView) (response : Fields) :
    ∃ schema, t.masterExample response = withSteps (masterOn t schema response) := by
  obtain ⟨schema, hschema⟩ := exists_expandSchema "responses"
    (Fields.put "master_example" (.bool true) (testOf t response))
  refine ⟨schema, ?_⟩
  rw [masterExample_eq, hschema]
  rfl

/-- The master example of a response before the steps after it are looked at. -/
theorem exists_master (t : OperationView) (response : Fields) :
    ∃ master : Fields, t.masterExample response = withSteps master ∧
      Fields.getD "master_example" master = .bool true ∧
      ∀ key, key ∉ ["schema", "master_example", "core-version", "examples"] →
        Fields.get? key master =
          (Fields.get? key (Entries.ofPairs response)).or (Fields.get? key exampleDefaults) := by
  obtain ⟨schema, hmaster⟩ := exists_masterOn t response
  refine ⟨_, hmaster, ?_, fun key hkey => ?_⟩
  · rw [masterOn, Fields.getD, Fields.get?_put_of_ne (by decide), Fields.get?_put_self]
    rfl
  · simp only [List.mem_cons, List.not_mem_nil, or_false, not_or] at hkey
    obtain ⟨hschema, hmark, hversion, hexamples⟩ := hkey
    rw [← get?_testOf t ⟨hversion, hexamples⟩, masterOn, Fields.get?_put_of_ne hschema,
      Fields.get?_put_of_ne hmark]

/-- The master example is made if the steps after the test can be gone through. -/
theorem succeeds_masterExample {response : Fields} :
    Succeeds (t.masterExample response) ↔ StepsShape response := by
  obtain ⟨master, hmaster, -, hget⟩ := exists_master t response
  have hstatus : Fields.getD "status" master = Fields.getD "status" (Entries.ofPairs response) :=
    congrArg Value.ofOption ((hget "status" (by decide)).trans Option.or_none)
  have hcheck : Fields.getD dataCheck master = Fields.getD dataCheck (Entries.ofPairs response) :=
    congrArg Value.ofOption ((hget dataCheck (by decide)).trans Option.or_none)
  -- without steps of its own the test has no steps
  have hafter : ((Fields.getD "after" master).isTruthy = true →
      (Fields.getD "after" master).hasElements = true) ↔
        ((Fields.getD "after" (Entries.ofPairs response)).isTruthy = true →
          (Fields.getD "after" (Entries.ofPairs response)).hasElements = true) := by
    rw [Fields.getD, Fields.getD, hget "after" (by decide)]
    cases Fields.get? "after" (Entries.ofPairs response) with
    | none => exact iff_of_true (fun h => by cases h) fun h => by cases h
    | some after => rfl
  rw [hmaster, withSteps, StepsShape, hstatus, hcheck]
  split
  · next hlook =>
    simp only [Bool.and_eq_true, decide_eq_true_eq] at hlook
    rw [succeeds_map, succeeds_withDataCheck, hafter]
    exact ⟨fun h _ _ => h, fun h => h hlook.1 hlook.2⟩
  · next hlook =>
    refine iff_of_true (succeeds_ok _) fun hsuccess hdata => absurd ?_ hlook
    simp only [Bool.and_eq_true, decide_eq_true_eq]
    exact ⟨hsuccess, hdata⟩

/-- The master example is marked and has the status of its response. -/
theorem of_masterExample {response master : Fields} (h : t.masterExample response = .ok master) :
    Fields.getD "master_example" master = .bool true ∧
      Fields.get? "status" master = Fields.get? "status" (Entries.ofPairs response) := by
  obtain ⟨start, hmaster, hmark, hget⟩ := exists_master t response
  have hstatus : Fields.get? "status" start = Fields.get? "status" (Entries.ofPairs response) :=
    (hget "status" (by decide)).trans Option.or_none
  rw [hmaster, withSteps] at h
  split at h
  · obtain ⟨after, -, rfl⟩ := map_eq_ok.mp h
    rw [Fields.getD, Fields.get?_put_of_ne (by decide), Fields.get?_put_of_ne (by decide)]
    exact ⟨hmark, hstatus⟩
  · rw [← Except.ok.inj h]
    exact ⟨hmark, hstatus⟩

/-- A documented example with the given schema, in layers: the master example without the entries that
are its own, what the example writes, and the description of the example. -/
def documentedOn (schema : Value) (own master : Fields) : Fields :=
  Fields.put "schema" schema (Fields.put "example_description" (Fields.getD "description" own)
    (Entries.putAll (own.filter fun e => e.1 ≠ .str "description")
      (master.filter fun e => !(masterOnly.any fun key => e.1 == .str key))))

theorem exists_documentedOn (own master : Fields) :
    ∃ schema, documentedExample (.map own) (.map master) = .ok (documentedOn schema own master) :=
  exists_expandSchema "responses" _

/-- A documented example has at a key the value of the last layer with this key. -/
theorem get?_documentedOn (schema : Value) (own master : Fields) {key : Value}
    (hkey : key ≠ .str "schema") : Entries.get? key (documentedOn schema own master) =
      if key = .str "example_description" then some (Fields.getD "description" own)
      else
        (if key = .str "description" then none else Entries.get? key (Entries.ofPairs own)).or
          (if key ∈ masterOnly.map .str then none else Entries.get? key master) := by
  have hown := Entries.get?_ofPairs_filter_keys key (fun k => decide (k ≠ .str "description")) own
  have hmaster := Entries.get?_filter_keys key
    (fun k => !(masterOnly.any fun name => k == .str name)) master
  have honly : (!(masterOnly.any fun name => key == .str name)) = true ↔
      key ∉ masterOnly.map .str := by
    simp only [Bool.not_eq_true', List.any_eq_false, beq_iff_eq, List.mem_map, not_exists, not_and]
    exact forall₂_congr fun _ _ => not_congr eq_comm
  simp only [decide_eq_true_eq, ite_not] at hown
  simp only [honly, ite_not] at hmaster
  rw [documentedOn, Fields.put, Entries.get?_put_of_ne (Ne.symm hkey), Fields.put, Entries.get?_put,
    Entries.get?_putAll, hown, hmaster]
  simp only [eq_comm (a := Value.str "example_description")]

/-- What a documented example writes of the mark and of the status counts, and else the status of the
master example. -/
theorem exists_documentedExample (own master : Fields) :
    ∃ test, documentedExample (.map own) (.map master) = .ok test ∧
      Fields.get? "master_example" test = Fields.get? "master_example" (Entries.ofPairs own) ∧
      Fields.get? "status" test =
        (Fields.get? "status" (Entries.ofPairs own)).or (Fields.get? "status" master) := by
  obtain ⟨schema, htest⟩ := exists_documentedOn own master
  refine ⟨_, htest, ?_, ?_⟩
  · rw [Fields.get?, get?_documentedOn schema own master (by decide), if_neg (by decide),
      if_neg (by decide), if_pos (by decide), Option.or_none]
    rfl
  · rw [Fields.get?, get?_documentedOn schema own master (by decide), if_neg (by decide),
      if_neg (by decide), if_neg (by decide)]
    rfl

/-! ## The description of the operation -/

/-- The status under which a document lists the test, if it does, can be a key. -/
def StatusShape (test : Fields) : Prop :=
  (Fields.getD "master_example" test).isTruthy = true →
    (Fields.getD "status" test).isTruthy = true → (Fields.getD "status" test).isKey = true

theorem succeeds_renderedResponses {tests : List Fields} :
    Succeeds (renderedResponses tests) ↔ ∀ test ∈ tests, StatusShape test := by
  rw [renderedResponses]
  dsimp only
  rw [succeeds_bind_of_forall fun _ => succeeds_pure _, succeeds_mapM]
  simp only [List.mem_filter, and_imp, StatusShape]
  refine forall₃_congr fun test _ _ => ?_
  rw [Value.orElse]
  cases (Fields.getD "status" test).isTruthy
  · simp [Value.isKey]
  · cases hkey : (Fields.getD "status" test).isKey <;> simp [hkey]

/-- The tests of a response can be made and listed. -/
structure TestsShape (response : Fields) : Prop where
  status : (Fields.getD "status" (Entries.ofPairs response)).isTruthy = true →
    (Fields.getD "status" (Entries.ofPairs response)).isKey = true
  steps : StepsShape response
  documented : ∀ e ∈ (Fields.getD "examples" response).toItems,
    ∃ own, e = .map own ∧ StatusShape (Entries.ofPairs own)

/-- A documented example is listed under its own status or under that of the master example. -/
theorem exists_statusShape_iff {e : Value} {master : Fields}
    (hmaster : (Fields.getD "status" master).isTruthy = true →
      (Fields.getD "status" master).isKey = true) :
    (∃ test, documentedExample e (.map master) = .ok test ∧ StatusShape test) ↔
      ∃ own, e = .map own ∧ StatusShape (Entries.ofPairs own) := by
  cases e with
  | map own =>
    obtain ⟨test, htest, hmark, hstatus⟩ := exists_documentedExample own master
    have hshape : StatusShape test ↔ StatusShape (Entries.ofPairs own) := by
      rw [StatusShape, StatusShape, Fields.getD, hmark, Fields.getD, hstatus, Fields.getD,
        Fields.getD]
      cases Fields.get? "status" (Entries.ofPairs own) with
      | none => exact iff_of_true (fun _ => hmaster) fun _ h => by cases h
      | some status => rfl
    rw [htest]
    simpa using hshape
  | _ => simp [documentedExample]

theorem exists_responseExamples_iff {response : Fields} :
    (∃ tests, t.responseExamples response = .ok tests ∧ ∀ test ∈ tests, StatusShape test) ↔
      TestsShape response := by
  rw [responseExamples]
  constructor
  · rintro ⟨tests, htests, hshape⟩
    obtain ⟨master, hmaster, hrest⟩ := bind_eq_ok.mp htests
    obtain ⟨documented, hdocumented, heq⟩ := bind_eq_ok.mp hrest
    obtain rfl := Except.ok.inj heq
    rw [List.forall_mem_cons] at hshape
    obtain ⟨hmark, hstatus⟩ := of_masterExample hmaster
    have hkey := hshape.1 (by rw [hmark]; rfl)
    refine ⟨?_, succeeds_masterExample.mp ⟨master, hmaster⟩, fun e he => ?_⟩
    · rwa [Fields.getD, hstatus] at hkey
    · exact (exists_statusShape_iff hkey).mp
        (exists_mapM_ok_forall.mp ⟨documented, hdocumented, hshape.2⟩ e he)
  · rintro ⟨hstatus, hsteps, hdocumented⟩
    obtain ⟨master, hmaster⟩ := succeeds_masterExample.mpr hsteps
    obtain ⟨-, hsame⟩ := of_masterExample hmaster
    rw [Fields.getD, ← hsame] at hstatus
    obtain ⟨documented, hmap, hshape⟩ := exists_mapM_ok_forall.mpr fun e he =>
      (exists_statusShape_iff hstatus).mpr (hdocumented e he)
    refine ⟨master :: documented, ?_, List.forall_mem_cons.mpr ⟨fun _ => hstatus, hshape⟩⟩
    rw [hmaster, ok_bind]
    dsimp only
    rw [hmap]
    rfl

/-- The responses that are written can be completed, and their tests can be made and listed. -/
structure ResponsesShape (t : OperationView) : Prop where
  written : ∃ written, responsesOf ((t.written "responses").orElse (.map [])) = .ok written ∧
    ∀ v ∈ written, (Fields.getD "status" (entriesOf v)).hasLiteral = true
  tests : ∀ responses, t.responses = .ok responses → ∀ response ∈ responses, TestsShape response

theorem succeeds_examples :
    Succeeds (do renderedResponses (← t.examples)) ↔ t.ResponsesShape := by
  rw [succeeds_bind, examples]
  simp only [bind_eq_ok]
  trans ∃ responses, t.responses = .ok responses ∧ ∃ tests,
    responses.mapM t.responseExamples = .ok tests ∧ ∀ own ∈ tests, ∀ test ∈ own, StatusShape test
  · constructor
    · rintro ⟨all, ⟨responses, hresponses, tests, htests, heq⟩, hall⟩
      obtain rfl := Except.ok.inj heq
      rw [succeeds_renderedResponses, List.forall_mem_flatten] at hall
      exact ⟨responses, hresponses, tests, htests, hall⟩
    · rintro ⟨responses, hresponses, tests, htests, hall⟩
      refine ⟨tests.flatten, ⟨responses, hresponses, tests, htests, rfl⟩, ?_⟩
      rwa [succeeds_renderedResponses, List.forall_mem_flatten]
  · simp only [exists_mapM_ok_forall, exists_responseExamples_iff]
    rw [exists_ok_and_iff, succeeds_responses]
    exact ⟨fun h => ⟨h.1, h.2⟩, fun h => ⟨h.written, h.tests⟩⟩

/-! ## The description of the operation -/

/-- What a fragment writes has the shape that a document with the given components can describe. -/
structure HasShape (t : OperationView) (components : Value) : Prop where
  tags : ∀ tag ∈ ((t.written "tags").orElse (.seq [])).toLeaves, tag.hasLiteral = true
  parameters : ∀ v ∈ (t.written "parameters").toItems, (v.isStr || v.isMap) = true
  body : ∀ body, t.requestBody = .ok (some body) →
    (∀ name ∈ referredBody? (Fields.getD "schema" body),
      Opens components (examplesOfBody name)) ∧ ∀ type ∈ t.consumes, type.isKey = true
  responses : t.ResponsesShape

/-- The identifier can be made out; if it is missing, so can what decides whether it is needed and
what the message about it names. -/
def TellsIdentifier (t : OperationView) : Prop :=
  if (t.written "operationId").isTruthy then (t.written "operationId").hasLiteral = true
  else (t.legacyPrefixes = [] ∨ t.operation.isStr = true) ∧
    (t.LacksIdentifier → t.operation.hasLiteral = true ∧ t.apiVersion.hasLiteral = true)

theorem succeeds_isLegacy :
    Succeeds t.isLegacy ↔ t.legacyPrefixes = [] ∨ t.operation.isStr = true := by
  rw [isLegacy, ← List.isEmpty_iff]
  cases t.legacyPrefixes.isEmpty with
  | true => simp
  | false => cases t.operation <;> simp [Value.isStr]

/-- An operation that does not lack its identifier has one, or needs none. -/
theorem succeeds_operationId (h : ¬ t.LacksIdentifier) :
    Succeeds t.operationId ↔ t.TellsIdentifier := by
  rw [operationId, TellsIdentifier]
  split
  · next hid => simp [Value.succeeds_toText]
  · next hid =>
    rw [and_iff_left fun hlacks => absurd hlacks h, ← succeeds_isLegacy]
    cases hlegacy : t.isLegacy with
    | error f => simp
    | ok legacy =>
      cases legacy with
      | true => simp
      | false => exact absurd ⟨Bool.eq_false_iff.mpr hid, hlegacy⟩ h

theorem succeeds_rendered {components : Value} :
    Succeeds (t.rendered components) ↔ Succeeds t.operationId ∧ t.HasShape components := by
  rw [rendered]
  refine succeeds_bind_and Iff.rfl fun id _ => ?_
  dsimp only
  obtain ⟨body?, hbody⟩ := t.succeeds_requestBody
  -- the steps one after another, each with its part of the shape
  trans (∀ tag ∈ ((t.written "tags").orElse (.seq [])).toLeaves, tag.hasLiteral = true) ∧
    (∀ v ∈ (t.written "parameters").toItems, (v.isStr || v.isMap) = true) ∧
    (∀ body ∈ body?, (∀ name ∈ referredBody? (Fields.getD "schema" body),
      Opens components (examplesOfBody name)) ∧ ∀ type ∈ t.consumes, type.isKey = true) ∧
    t.ResponsesShape
  · refine succeeds_bind_and (succeeds_mapError.trans succeeds_tagNames) fun tags _ => ?_
    refine succeeds_bind_and (succeeds_mapError.trans succeeds_listedParameters) fun parameters _ => ?_
    rw [hbody, Except.mapError, ok_bind]
    refine succeeds_bind_and (succeeds_mapError.trans ?_) fun rendered _ => ?_
    · exact succeeds_mapM_option.trans (forall₂_congr fun body _ => succeeds_renderedBody)
    · rw [succeeds_bind_of_forall fun _ => succeeds_pure _, succeeds_mapError, succeeds_examples]
  · constructor
    · rintro ⟨htags, hparameters, hrendered, hresponses⟩
      refine ⟨htags, hparameters, fun body hsome => hrendered body ?_, hresponses⟩
      exact Except.ok.inj (hbody.symm.trans hsome)
    · rintro ⟨htags, hparameters, hrendered, hresponses⟩
      refine ⟨htags, hparameters, fun body hsome => hrendered body ?_, hresponses⟩
      rw [hbody, Option.mem_def.mp hsome]

/-- An operation cannot be rendered, and is not at fault for want of an identifier, exactly if its
identifier cannot be made out or what its fragment writes does not have the shape of a description. -/
theorem rendered_fails_iff {components : Value} :
    (∃ f, t.rendered components = .error (.failed f)) ↔
      ¬ (t.TellsIdentifier ∧ (t.LacksIdentifier ∨ t.HasShape components)) := by
  by_cases hlacks : t.LacksIdentifier
  · have htells : t.TellsIdentifier ↔
        (t.operation.hasLiteral && t.apiVersion.hasLiteral) = true := by
      rw [TellsIdentifier, if_neg (by rw [hlacks.1]; decide), ← succeeds_isLegacy,
        and_iff_right ⟨false, hlacks.2⟩, Bool.and_eq_true]
      exact ⟨fun h => h hlacks, fun h _ => h⟩
    rw [and_iff_left (.inl hlacks), htells, rendered, operationId_of_lacksIdentifier hlacks]
    split
    · next hliteral => simp [bind, Except.bind, hliteral]
    · next hliteral => simp [bind, Except.bind, hliteral]
  · rw [or_iff_right hlacks, ← succeeds_operationId hlacks, ← succeeds_rendered]
    constructor
    · rintro ⟨f, hf⟩ ⟨operation, hoperation⟩
      rw [hf] at hoperation
      cases hoperation
    · intro hfails
      cases hrendered : t.rendered components with
      | ok operation => exact absurd ⟨operation, hrendered⟩ hfails
      | error fault =>
        obtain ⟨f, rfl⟩ := onlyFails_rendered hlacks components fault hrendered
        exact ⟨f, rfl⟩

end OperationView
end ApiTree
