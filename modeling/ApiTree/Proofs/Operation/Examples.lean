import ApiTree.Proofs.Operation.Description

/-!
# Documented examples and the document

A document lists the master examples of the tests of an operation, and a documented example that is
marked as one. So all that a document can tell of the examples of a response is which of them are
marked, and that one of them is no mapping, from which no test can be made. Other examples of which
the same can be told leave the description as it is (`rendered_withExamples`).
-/

set_option autoImplicit false

namespace ApiTree

namespace OperationView

/-! ## What can be told of examples -/

/-- The test is listed in a document. -/
def isListed (test : Fields) : Bool := (Fields.getD "master_example" test).isTruthy

/-- The example is marked as a master example, or no mapping. -/
def isHeeded : Value → Bool
  | .map own => isListed (Entries.ofPairs own)
  | _ => true

/-- The documented examples that are heeded in a document. -/
def heededExamples (examples : Value) : List Value := examples.toItems.filter isHeeded

/-- What can be told of a response in a document: its entries besides the examples, and those of the
examples that are heeded. -/
def told (response : Fields) : Fields × List Value :=
  (Fields.erase "examples" response, heededExamples (Fields.getD "examples" response))

section

variable {key : String} (v : Value) (response : Fields)

theorem getD_told (h : key ≠ "examples") :
    Fields.getD key (told response).1 = Fields.getD key response := by
  rw [told, Fields.getD, Fields.getD, Fields.get?, Fields.erase,
    Entries.get?_erase_of_ne (by simpa using h.symm)]
  rfl

theorem told_put (h : key ≠ "examples") :
    told (Fields.put key v response) =
      (Fields.put key v (told response).1, (told response).2) := by
  rw [told, Fields.getD, Fields.get?_put_of_ne h.symm]
  exact congrArg₂ Prod.mk (Entries.erase_put_of_ne (by simpa using h) v response) rfl

theorem told_put_examples :
    told (Fields.put "examples" v response) = ((told response).1, heededExamples v) := by
  rw [told, Fields.getD, Fields.get?_put_self]
  exact congrArg₂ Prod.mk (Entries.erase_put_self _ v response) rfl

end

/-! ## Completed responses -/

/-- The entries with a value at a key at which they have none but null. -/
def putIfNull (key : String) (v : Value) (fields : Fields) : Fields :=
  if (Fields.getD key fields).isNull then Fields.put key v fields else fields

theorem completeResponse_map (status : Value) (entries : Fields) :
    completeResponse status (.map entries) = do
      let fields := putIfNull "status" status entries
      let status ← statusText (Fields.getD "status" fields)
      return putIfNull "examples" (.seq [])
        (putIfNull "description" (.str "") (Fields.put "status" status fields)) := rfl

theorem told_putIfNull {key : String} (h : key ≠ "examples") (v : Value) (response : Fields) :
    told (putIfNull key v response) =
      (putIfNull key v (told response).1, (told response).2) := by
  rw [putIfNull, putIfNull, getD_told response h]
  split
  · exact told_put v response h
  · rfl

/-- Nothing is told of examples that are absent. -/
theorem told_putIfNull_examples (response : Fields) :
    told (putIfNull "examples" (.seq []) response) = told response := by
  rw [putIfNull]
  split
  · next hnull =>
    have habsent : Fields.getD "examples" response = .null := by
      cases hvalue : Fields.getD "examples" response <;> simp_all [Value.isNull]
    rw [told_put_examples]
    refine congrArg₂ Prod.mk rfl ?_
    rw [habsent]
    rfl
  · rfl

/-- What is told of a completed response depends on what is told of the response alone. -/
theorem map_told_completeResponse (status : Value) (entries : Fields) :
    (completeResponse status (.map entries)).map told = do
      let fields := putIfNull "status" status (told entries).1
      let status ← statusText (Fields.getD "status" fields)
      return (putIfNull "description" (.str "") (Fields.put "status" status fields),
        (told entries).2) := by
  have hfields := told_putIfNull (by decide : "status" ≠ "examples") status entries
  have hstatus := getD_told (putIfNull "status" status entries)
    (by decide : "status" ≠ "examples")
  rw [hfields] at hstatus
  rw [completeResponse_map]
  dsimp only at hstatus ⊢
  rw [hstatus]
  cases statusText (Fields.getD "status" (putIfNull "status" status entries)) with
  | error f => rfl
  | ok text =>
    refine congrArg Except.ok ?_
    rw [told_putIfNull_examples, told_putIfNull (by decide), told_put _ _ (by decide), hfields]

/-! ## Tests -/

variable {t t' : OperationView}

theorem isListed_of_documentedExample {own master test : Fields}
    (h : documentedExample (.map own) (.map master) = .ok test) :
    isListed test = isListed (Entries.ofPairs own) := by
  obtain ⟨made, hmade, hmark, -⟩ := exists_documentedExample own master
  obtain rfl := Except.ok.inj (hmade.symm.trans h)
  rw [isListed, isListed, Fields.getD, Fields.getD, hmark]

/-- The listed tests of a response are those of the examples that are heeded. -/
theorem map_filter_documented (master : Fields) (examples : List Value) :
    (examples.mapM fun e => documentedExample e (.map master)).map (List.filter isListed) =
      ((examples.filter isHeeded).mapM fun e => documentedExample e (.map master)).map
        (List.filter isListed) := by
  apply map_filter_mapM
  intro e _ hunheeded
  cases e with
  | map own =>
    obtain ⟨test, htest, -⟩ := exists_documentedExample own master
    exact ⟨test, htest, (isListed_of_documentedExample htest).trans hunheeded⟩
  | _ => cases hunheeded

/-- The tests of a response that a document lists. -/
def listedExamples (t : OperationView) (response : Fields) : Except Failure (List Fields) :=
  (t.responseExamples response).map (List.filter isListed)

/-- The listed tests of a response depend on what is told of it alone. -/
theorem listedExamples_congr {response response' : Fields} (h : told response' = told response) :
    t.listedExamples response' = t.listedExamples response := by
  obtain ⟨hentries, hheeded⟩ := Prod.mk.inj h
  have hmaster : t.masterExample response' = t.masterExample response := by
    rw [masterExample, masterExample, hentries]
  rw [listedExamples, listedExamples, responseExamples, responseExamples, hmaster]
  cases t.masterExample response with
  | error f => rfl
  | ok master =>
    rw [ok_bind, ok_bind]
    dsimp only
    rw [map_filter_bind_cons, map_filter_bind_cons, map_filter_documented, ← heededExamples,
      hheeded, heededExamples, ← map_filter_documented]

theorem renderedResponses_filter (tests : List Fields) :
    renderedResponses (tests.filter isListed) = renderedResponses tests := by
  have hmasters : (tests.filter isListed).filter isListed = tests.filter isListed := by
    rw [List.filter_filter]
    simp only [Bool.and_self]
  change (do
    let entries ← ((tests.filter isListed).filter isListed).mapM _
    return Entries.ofPairsBy Value.sameKey entries) = _
  rw [hmasters]
  rfl

/-- The responses of a description come from the listed tests of each response. -/
theorem describedResponses_eq :
    t.describedResponses = (do
      let responses ← t.responses
      let tests ← responses.mapM t.listedExamples
      renderedResponses tests.flatten) := by
  rw [describedResponses, examples]
  cases t.responses with
  | error f => rfl
  | ok responses =>
    have hlisted := mapM_map_eq t.responseExamples (List.filter isListed) responses
    simp only [ok_bind]
    change _ = (responses.mapM fun response => t.listedExamples response) >>= _
    simp only [listedExamples, hlisted]
    cases responses.mapM t.responseExamples with
    | error f => rfl
    | ok tests =>
      change renderedResponses tests.flatten = renderedResponses (tests.map _).flatten
      rw [← List.filter_flatten, renderedResponses_filter]

/-! ## Other examples of a response -/

/-- What stands around a response among those of an operation: they are written by status or in a
list. -/
inductive ResponsePlace where
  | byStatus (status : Value) (before after : Fields)
  | inList (before after : List Value)

namespace ResponsePlace

/-- The responses of an operation with a response at the place. -/
def fill (place : ResponsePlace) (response : Value) : Value :=
  match place with
  | .byStatus status before after => .map (before ++ (status, response) :: after)
  | .inList before after => .seq (before ++ response :: after)

/-- The status that the place gives a response. -/
def status : ResponsePlace → Value
  | .byStatus status _ _ => .str status.text
  | .inList _ _ => .null

/-- The responses before the place, completed. -/
def completedBefore : ResponsePlace → Except Failure (List Fields)
  | .byStatus _ before _ => before.mapM fun e => completeResponse (.str e.1.text) e.2
  | .inList before _ => before.mapM (completeResponse .null)

/-- The responses after the place, completed. -/
def completedAfter : ResponsePlace → Except Failure (List Fields)
  | .byStatus _ _ after => after.mapM fun e => completeResponse (.str e.1.text) e.2
  | .inList _ after => after.mapM (completeResponse .null)

end ResponsePlace

theorem responses_of_fill {place : ResponsePlace} {response : Value}
    (h : t.written "responses" = place.fill response) : t.responses = do
      let before ← place.completedBefore
      let completed ← completeResponse place.status response
      let after ← place.completedAfter
      return before ++ completed :: after := by
  cases place with
  | byStatus status before after =>
    have hwritten : (t.written "responses").orElse (.map []) =
        .map (before ++ (status, response) :: after) := by
      rw [h, ResponsePlace.fill, Value.orElse, if_pos (by simp [Value.isTruthy])]
    rw [responses, hwritten]
    simp only [List.mapM_append, List.mapM_cons, ResponsePlace.completedBefore,
      ResponsePlace.status, ResponsePlace.completedAfter, bind_assoc, pure_bind]
  | inList before after =>
    have hwritten : (t.written "responses").orElse (.map []) =
        .seq (before ++ response :: after) := by
      rw [h, ResponsePlace.fill, Value.orElse, if_pos (by simp [Value.isTruthy])]
    rw [responses, hwritten]
    simp only [Value.elements, ok_bind, List.mapM_append, List.mapM_cons,
      ResponsePlace.completedBefore, ResponsePlace.status, ResponsePlace.completedAfter,
      bind_assoc, pure_bind]

/-- Responses of which the same is told are described alike. -/
theorem describedResponses_congr {place : ResponsePlace} {response response' : Value}
    (htests : t'.responseExamples = t.responseExamples)
    (h : t.written "responses" = place.fill response)
    (h' : t'.written "responses" = place.fill response')
    (htold : (completeResponse place.status response').map told =
      (completeResponse place.status response).map told) :
    t'.describedResponses = t.describedResponses := by
  have hlisted : t'.listedExamples = t.listedExamples := by
    funext completed
    rw [listedExamples, listedExamples, htests]
  rw [describedResponses_eq, describedResponses_eq, responses_of_fill h, responses_of_fill h',
    hlisted]
  cases place.completedBefore with
  | error f => rfl
  | ok before =>
    simp only [ok_bind]
    cases hcompleted : completeResponse place.status response with
    | error f =>
      rw [hcompleted] at htold
      rw [map_eq_error.mp htold]
    | ok completed =>
      rw [hcompleted] at htold
      obtain ⟨completed', hcompleted', hsame⟩ := map_eq_ok.mp htold
      rw [hcompleted']
      simp only [ok_bind]
      cases place.completedAfter with
      | error f => rfl
      | ok after =>
        simp only [ok_bind, pure_bind, List.mapM_append, List.mapM_cons,
          listedExamples_congr hsame]

/-- The view of an operation of which the response at a place has other examples. -/
def withExamples (t : OperationView) (place : ResponsePlace) (response : Fields)
    (examples : Value) : OperationView :=
  t.withAttribute "responses" (place.fill (.map (Fields.put "examples" examples response)))

theorem written_withExamples (place : ResponsePlace) (response : Fields) (examples : Value) :
    (t.withExamples place response examples).written "responses" =
      place.fill (.map (Fields.put "examples" examples response)) :=
  t.written_withAttribute_self _

/-- Of the parts of a description only the responses look at what is written as responses. -/
theorem rendered_withResponses (t : OperationView) (v components : Value) :
    (t.withAttribute "responses" v).rendered components = do
      let id ← t.operationId
      let tags ← t.tagNames.mapError .failed
      let parameters ← t.listedParameters.mapError .failed
      let body ← (t.describedBody components).mapError .failed
      let responses ← (t.withAttribute "responses" v).describedResponses.mapError .failed
      return t.headEntries id tags ++ entryIfAny "parameters" (.seq parameters) ++
        tailEntries body responses := by
  rw [rendered_eq, t.operationId_withAttribute _ (by decide), t.tagNames_withAttribute _ (by decide),
    t.listedParameters_withAttribute _ (by decide), t.describedBody_withAttribute _ (by decide),
    t.headEntries_withAttribute _ (by decide)]

/-- Examples of which the same can be told leave the description of an operation as it is. -/
theorem rendered_withExamples_of_heeded {place : ResponsePlace} {response : Fields}
    (h : t.written "responses" = place.fill (.map response)) {examples : Value}
    (hheeded : heededExamples examples = heededExamples (Fields.getD "examples" response))
    (components : Value) :
    (t.withExamples place response examples).rendered components = t.rendered components := by
  have htold : told (Fields.put "examples" examples response) = told response := by
    rw [told_put_examples, hheeded]
    rfl
  have hresponses : (t.withExamples place response examples).describedResponses =
      t.describedResponses := by
    refine describedResponses_congr (funext (t.responseExamples_withAttribute _ (by decide))) h
      (written_withExamples place response examples) ?_
    rw [map_told_completeResponse, map_told_completeResponse, htold]
  rw [withExamples, rendered_withResponses, ← withExamples, hresponses, rendered_eq]

/-- No test can be made from an example that is no mapping, and so there is no description. -/
theorem not_succeeds_rendered_withExamples {place : ResponsePlace} {response : Fields}
    {examples e : Value} (hmem : e ∈ examples.toItems) (hmap : e.isMap = false)
    (components : Value) :
    ¬ Succeeds ((t.withExamples place response examples).rendered components) := by
  intro hsucceeds
  have hshape := (succeeds_rendered.mp hsucceeds).2.responses
  obtain ⟨completed, hcompleted⟩ := succeeds_responses.mpr hshape.written
  have hplaced := hcompleted
  rw [responses_of_fill (written_withExamples place response examples)] at hplaced
  obtain ⟨before, -, hplaced⟩ := bind_eq_ok.mp hplaced
  obtain ⟨own, hown, hplaced⟩ := bind_eq_ok.mp hplaced
  obtain ⟨after, -, heq⟩ := bind_eq_ok.mp hplaced
  have htests : TestsShape own := by
    apply hshape.tests completed hcompleted
    rw [← Except.ok.inj heq]
    exact List.mem_append_right before List.mem_cons_self
  -- the example is heeded, and so it is still there when the response is completed
  have hheeded : e ∈ (told own).2 := by
    have htold := congrArg (Except.map told) hown
    rw [map_told_completeResponse] at htold
    obtain ⟨status, -, htold⟩ := bind_eq_ok.mp htold
    rw [← Except.ok.inj htold, told_put_examples]
    refine List.mem_filter.mpr ⟨hmem, ?_⟩
    cases e with
    | map own => cases hmap
    | _ => rfl
  obtain ⟨entries, rfl, -⟩ := htests.documented e (List.mem_filter.mp hheeded).1
  cases hmap

/-- Other examples of a response leave the description of an operation as it is, with its failures,
if those of them that are marked as master examples or are no mappings stay the same. An example
that is no mapping leaves no description. -/
theorem rendered_withExamples {place : ResponsePlace} {response : Fields}
    (h : t.written "responses" = place.fill (.map response)) (examples components : Value) :
    (heededExamples examples = heededExamples (Fields.getD "examples" response) →
      (t.withExamples place response examples).rendered components = t.rendered components) ∧
    ∀ e ∈ examples.toItems, e.isMap = false →
      ¬ Succeeds ((t.withExamples place response examples).rendered components) :=
  ⟨fun hheeded => rendered_withExamples_of_heeded h hheeded components,
    fun _ hmem hmap => not_succeeds_rendered_withExamples hmem hmap components⟩

/-- A view of an operation with one response. -/
def oneResponse (response : Fields) : OperationView :=
  ofFields [("id", .str "A"), ("responses", .map [("404", .map response)])]

/-- An example that writes no mark is not told, and one that is a text leaves no description. -/
theorem rendered_withExamples_unmarked :
    let response : Fields := [("description", .str "OK"), ("schema", .str "widget")]
    let place : ResponsePlace := .byStatus "404" [] []
    let examples : Value := .seq [.map [("status", .str "500"), ("focus", .bool true)]]
    (oneResponse response).written "responses" = place.fill (.map response) ∧
      heededExamples examples = heededExamples (Fields.getD "examples" response) ∧
      ((oneResponse response).withExamples place response examples).rendered =
        (oneResponse response).rendered ∧
      ¬ Succeeds
        ((oneResponse response).withExamples place response (.str "created")).rendered := by
  intro response place examples
  have hplace : (oneResponse response).written "responses" = place.fill (.map response) := by
    decide
  have hheeded : heededExamples examples = heededExamples (Fields.getD "examples" response) := by
    decide
  have hcreated : (.str "created" : Value) ∈ (Value.str "created").toItems := List.mem_cons_self
  exact ⟨hplace, hheeded, (rendered_withExamples hplace examples .null).1 hheeded,
    (rendered_withExamples hplace (.str "created") .null).2 _ hcreated rfl⟩

/-- An operation with one response is described by the tests of this response. -/
theorem rendered_oneResponse {response completed master described : Fields} {tests : List Fields}
    (hcompleted : (oneResponse response).responses = .ok [completed])
    (hmaster : (oneResponse response).masterExample completed = .ok master)
    (htests : (Fields.getD "examples" completed).toItems.mapM
      (fun e => documentedExample e (.map master)) = .ok tests)
    (hdescribed : renderedResponses (master :: tests) = .ok described) :
    (oneResponse response).rendered =
      .ok [("operationId", .str "A"), ("responses", .map described)] := by
  have hexamples : (oneResponse response).responseExamples completed = .ok (master :: tests) := by
    rw [responseExamples, hmaster, ok_bind]
    dsimp only
    rw [htests]
    rfl
  have hresponses : (oneResponse response).describedResponses = .ok described := by
    rw [describedResponses, examples, hcompleted, ok_bind, List.mapM_cons, hexamples]
    change renderedResponses ((master :: tests) ++ []) = _
    rw [List.append_nil, hdescribed]
  rw [rendered_eq, hresponses]
  rfl

/-- An example that is marked as a master example is described as a response of its own. -/
theorem rendered_withExamples_marked :
    let response : Fields := [("description", .str "OK")]
    let place : ResponsePlace := .byStatus "404" [] []
    let examples : Value := .seq [.map [("master_example", .bool true), ("status", .str "500")]]
    let described : Value := .map [("description", .str "OK")]
    (oneResponse response).written "responses" = place.fill (.map response) ∧
      (oneResponse response).rendered =
        .ok [("operationId", .str "A"), ("responses", .map [("404", described)])] ∧
      ((oneResponse response).withExamples place response examples).rendered =
        .ok [("operationId", .str "A"),
          ("responses", .map [("404", described), ("500", described)])] := by
  intro response place examples described
  let base : Fields :=
    exampleDefaults ++ ([("description", .str "OK"), ("status", .str "404")] : Fields)
  let master : Fields := base ++ ([("master_example", .bool true), ("schema", .null)] : Fields)
  have hmaster {t : OperationView} {completed : Fields} (hbase : testOf t completed = base) :
      t.masterExample completed = .ok master := by
    rw [masterExample, ← testOf, hbase]
    rfl
  refine ⟨by decide, ?_, ?_⟩
  · let completed : Fields :=
      [("description", .str "OK"), ("status", .str "404"), ("examples", .seq [])]
    have hbase : testOf (oneResponse response) completed = base := by decide
    have hdescribed : renderedResponses [master] = .ok [("404", described)] := by cbv
    exact rendered_oneResponse rfl (hmaster hbase) rfl hdescribed
  · let marked : Fields := [("description", .str "OK"), ("examples", examples)]
    let completed : Fields :=
      [("description", .str "OK"), ("examples", examples), ("status", .str "404")]
    let test : Fields := exampleDefaults ++ ([("description", .str "OK"), ("status", .str "500"),
      ("schema", .null), ("master_example", .bool true), ("example_description", .null)] : Fields)
    have hview : (oneResponse response).withExamples place response examples =
        oneResponse marked := by decide
    have hbase : testOf (oneResponse marked) completed = base := by decide
    have htests : (Fields.getD "examples" completed).toItems.mapM
        (fun e => documentedExample e (.map master)) = .ok [test] := by cbv
    have hdescribed : renderedResponses [master, test] =
        .ok [("404", described), ("500", described)] := by cbv
    rw [hview]
    exact rendered_oneResponse rfl (hmaster hbase) htests hdescribed

end OperationView
end ApiTree
