import ApiTree.Proofs.Operation.Examples

/-!
# Responses in a list

Responses can be written by status or in a list in which each carries its status. The status of a
response is filled in before anything else is read of it, so that from there on the two forms differ
in the order of entries at most. No step of making and describing tests looks at this order
(`rendered_of_carries`).
-/

set_option autoImplicit false

namespace ApiTree

theorem Entries.Reordered.getD_eq {es fs : Fields} (h : Reordered es fs) (key : String) :
    Fields.getD key fs = Fields.getD key es := by
  rw [Fields.getD, Fields.getD, Fields.get?, Fields.get?, h.get?_eq]

namespace OperationView

open Entries (Reordered)

variable {t : OperationView}

/-! ## Completed responses -/

/-- What a response has at the keys that each response is to have. -/
def withDefaults (response : Fields) : Fields :=
  putIfNull "examples" (.seq []) (putIfNull "description" (.str "") response)

theorem putIfNull_of_null {key : String} {fields : Fields} (h : Fields.getD key fields = .null)
    (v : Value) : putIfNull key v fields = Fields.put key v fields := by
  rw [putIfNull, h]
  rfl

theorem putIfNull_of_str {key text : String} {fields : Fields}
    (h : Fields.getD key fields = .str text) (v : Value) : putIfNull key v fields = fields := by
  rw [putIfNull, h]
  rfl

theorem reordered_putIfNull {es fs : Fields} (h : Reordered es fs) (key : String) (v : Value) :
    Reordered (putIfNull key v es) (putIfNull key v fs) := by
  rw [putIfNull, putIfNull, h.getD_eq]
  split
  · exact h.put (.str key) v
  · exact h

theorem reordered_withDefaults {es fs : Fields} (h : Reordered es fs) :
    Reordered (withDefaults es) (withDefaults fs) :=
  reordered_putIfNull (reordered_putIfNull h "description" (.str "")) "examples" (.seq [])

/-- A response with a status that is a text is completed with this status. -/
theorem completeResponse_of_status {status : Value} {text : String} {entries : Fields}
    (h : Fields.getD "status" (putIfNull "status" status entries) = .str text) :
    completeResponse status (.map entries) =
      .ok (withDefaults (Fields.put "status" (.str text) (putIfNull "status" status entries))) := by
  rw [completeResponse_map]
  dsimp only
  rw [h]
  rfl

/-- The element of a list is the response that an entry by status writes, carrying its status. The
response is null, or a mapping that says nothing of its status. -/
def Carries (e : Value × Value) (listed : Value) : Prop :=
  ∃ status fields, e.1 = .str status ∧ listed = .map fields ∧
    fields.Perm (Fields.put "status" (.str status) (entriesOf e.2)) ∧
    (e.2 = .null ∨ ∃ entries, e.2 = .map entries ∧ (Entries.keys entries).Nodup ∧
      Fields.getD "status" entries = .null)

/-- What a response says besides its status, with null as a response that says nothing. -/
theorem Carries.of_entries {e : Value × Value} {listed : Value} (h : Carries e listed) :
    (Entries.keys (entriesOf e.2)).Nodup ∧ Fields.getD "status" (entriesOf e.2) = .null ∧
      ∀ status, completeResponse status e.2 = completeResponse status (.map (entriesOf e.2)) := by
  obtain ⟨-, -, -, -, -, hnull | ⟨entries, hmap, hkeys, hnone⟩⟩ := h
  · rw [hnull]
    exact ⟨List.nodup_nil, rfl, fun _ => rfl⟩
  · rw [hmap]
    exact ⟨hkeys, hnone, fun _ => rfl⟩

/-- Both forms of a response are completed to the same, but for the order of its entries. -/
theorem Carries.exists_completed {e : Value × Value} {listed : Value} (h : Carries e listed) :
    ∃ response response', completeResponse (.str e.1.text) e.2 = .ok response ∧
      completeResponse .null listed = .ok response' ∧ Reordered response response' := by
  obtain ⟨hkeys, hnone, hsame⟩ := h.of_entries
  obtain ⟨status, fields, hstatus, rfl, hperm, -⟩ := h
  have hkey : e.1.text = status := by
    rw [hstatus]
    rfl
  have hreordered : Reordered (Fields.put "status" (.str status) (entriesOf e.2)) fields :=
    ⟨Entries.nodup_keys_put _ _ hkeys, hperm.symm⟩
  -- by status the status is filled in, in a list it is there
  have hbyStatus := putIfNull_of_null hnone (.str status)
  have hput : Fields.getD "status" (Fields.put "status" (.str status) (entriesOf e.2)) =
      .str status := by
    rw [Fields.getD, Fields.get?_put_self]
    rfl
  have hlisted : Fields.getD "status" fields = .str status := by
    rw [hreordered.getD_eq, hput]
  have hinList := putIfNull_of_str hlisted .null
  refine ⟨_, _, ?_, ?_, reordered_withDefaults (hreordered.put (.str "status") (.str status))⟩
  · rw [hkey, hsame, completeResponse_of_status (by rw [hbyStatus, hput]), hbyStatus]
    rfl
  · rw [completeResponse_of_status (by rw [hinList, hlisted]), hinList]
    rfl

/-! ## Tests of responses in another order -/

theorem alike_expandSchema {es fs : Fields} (h : Reordered es fs) (kind : String) :
    Alike Reordered (expandSchema kind es) (expandSchema kind fs) := by
  rw [expandSchema, expandSchema, h.getD_eq]
  cases Reference.expandAt ["components", kind, "x", "schema"] (Fields.getD "schema" es) with
  | error f => exact .error f
  | ok schema => exact .ok (h.put (.str "schema") schema)

theorem reordered_testOf {response response' : Fields} (h : Reordered response response') :
    Reordered (testOf t response) (testOf t response') := by
  have hdefaults : (Entries.keys exampleDefaults).Nodup := by decide
  exact ((h.erase (.str "examples")).putAll_of hdefaults).putAll_on _

theorem alike_withSteps {master master' : Fields} (h : Reordered master master') :
    Alike Reordered (withSteps master) (withSteps master') := by
  rw [withSteps, withSteps, h.getD_eq, h.getD_eq, h.getD_eq]
  split
  · cases withDataCheck (Fields.getD "after" master) with
    | error f => exact .error f
    | ok after => exact .ok (h.put (.str "after") after)
  · exact .ok h

theorem alike_masterExample {response response' : Fields} (h : Reordered response response') :
    Alike Reordered (t.masterExample response) (t.masterExample response') := by
  rw [masterExample_eq, masterExample_eq]
  have hmarked := (reordered_testOf (t := t) h).put (.str "master_example") (.bool true)
  exact (alike_expandSchema hmarked "responses").bind fun _ _ => alike_withSteps

theorem alike_documentedExample {master master' : Fields} (h : Reordered master master')
    (documented : Value) :
    Alike Reordered (documentedExample documented (.map master))
      (documentedExample documented (.map master')) := by
  cases documented with
  | map own =>
    have hbase := h.filter fun e => !(masterOnly.any fun key => e.1 == .str key)
    have hlayers := hbase.putAll_on (own.filter fun e => e.1 ≠ .str "description")
    exact alike_expandSchema
      (hlayers.put (.str "example_description") (Fields.getD "description" own)) "responses"
  | _ => exact .error Failure.noMember

theorem alike_responseExamples {response response' : Fields}
    (h : Reordered response response') :
    Alike (List.Forall₂ Reordered) (t.responseExamples response)
      (t.responseExamples response') := by
  rw [responseExamples, responseExamples, h.getD_eq]
  refine (alike_masterExample h).bind fun master master' hmaster => ?_
  have hdocumented : Alike (List.Forall₂ Reordered)
      ((Fields.getD "examples" response).toItems.mapM fun e => documentedExample e (.map master))
      ((Fields.getD "examples" response).toItems.mapM fun e => documentedExample e (.map master')) := by
    refine Alike.mapM (R := Eq) (fun e e' heq => ?_) (List.forall₂_refl _)
    rw [heq]
    exact alike_documentedExample hmaster e'
  exact hdocumented.bind fun tests tests' htests => .ok (.cons hmaster htests)

/-! ## Descriptions of responses in another order -/

/-- Nothing in the description of tests tells the order of their entries. -/
theorem renderedResponses_of_reordered {tests tests' : List Fields}
    (h : List.Forall₂ Reordered tests tests') :
    renderedResponses tests' = renderedResponses tests := by
  have hmasters : List.Forall₂ Reordered (tests.filter isListed) (tests'.filter isListed) := by
    refine List.rel_filter (fun test test' htest => ?_) h
    change isListed test = true ↔ isListed test' = true
    rw [isListed, isListed, htest.getD_eq]
  have hentries : List.Forall₂ (fun test test' =>
      (let status := (Fields.getD "status" test').orElse (.str "default")
        if status.isKey then .ok (status, renderedResponse test') else .error .wrongKind :
          Except Failure (Value × Value)) =
      (let status := (Fields.getD "status" test).orElse (.str "default")
        if status.isKey then .ok (status, renderedResponse test) else .error .wrongKind))
      (tests.filter isListed) (tests'.filter isListed) := by
    refine hmasters.imp fun test test' htest => ?_
    dsimp only
    rw [renderedResponse, renderedResponse, htest.getD_eq, htest.getD_eq, htest.getD_eq]
  change (do return Entries.ofPairsBy Value.sameKey (← (tests'.filter isListed).mapM _)) =
    (do return Entries.ofPairsBy Value.sameKey (← (tests.filter isListed).mapM _))
  rw [mapM_eq_of_forall₂ hentries.flip]

/-! ## The two forms -/

/-- The two forms of the responses are completed to the same, but for the order of entries. -/
theorem exists_responses_of_carries {entries : Fields} {listed : List Value}
    (h : List.Forall₂ Carries entries listed) :
    ∃ responses responses',
      (t.withAttribute "responses" (.map entries)).responses = .ok responses ∧
      (t.withAttribute "responses" (.seq listed)).responses = .ok responses' ∧
      List.Forall₂ Reordered responses responses' := by
  obtain ⟨completed, completed', hcompleted, hcompleted', hsame⟩ : ∃ completed completed',
      entries.mapM (fun e => completeResponse (.str e.1.text) e.2) = .ok completed ∧
      listed.mapM (completeResponse .null) = .ok completed' ∧
      List.Forall₂ Reordered completed completed' := by
    induction h with
    | nil => exact ⟨[], [], rfl, rfl, .nil⟩
    | cons hfirst _ ih =>
      obtain ⟨response, response', hresponse, hresponse', hreordered⟩ := hfirst.exists_completed
      obtain ⟨rest, rest', hrest, hrest', hsame⟩ := ih
      refine ⟨response :: rest, response' :: rest', ?_, ?_, .cons hreordered hsame⟩
      · rw [List.mapM_cons, hresponse, hrest]
        rfl
      · rw [List.mapM_cons, hresponse', hrest']
        rfl
  refine ⟨completed, completed', ?_, ?_, hsame⟩
  · have hwritten : (Value.map entries).orElse (.map []) = .map entries := by
      cases entries <;> rfl
    rw [responses, written_withAttribute_self, hwritten]
    exact hcompleted
  · rw [responses, written_withAttribute_self]
    -- without elements a list is like no responses at all
    cases listed with
    | nil => exact hcompleted'
    | cons r listed => exact hcompleted'

/-- Responses that are written by status and the same responses in a list, each carrying its status,
are completed to the same and have the same tests, but for the order of entries. What a document says
about the operation is the same in both forms. -/
theorem rendered_of_carries (t : OperationView) {entries : Fields} {listed : List Value}
    (h : List.Forall₂ Carries entries listed) :
    let byStatus := t.withAttribute "responses" (.map entries)
    let inList := t.withAttribute "responses" (.seq listed)
    (∃ responses responses', byStatus.responses = .ok responses ∧
      inList.responses = .ok responses' ∧ List.Forall₂ Reordered responses responses') ∧
    Alike (List.Forall₂ Reordered) byStatus.examples inList.examples ∧
    ∀ components, inList.rendered components = byStatus.rendered components := by
  intro byStatus inList
  obtain ⟨responses, responses', hresponses, hresponses', hsame⟩ :=
    exists_responses_of_carries (t := t) h
  have hexamples : Alike (List.Forall₂ Reordered) byStatus.examples inList.examples := by
    have hbyStatus : byStatus.responseExamples = t.responseExamples :=
      funext (t.responseExamples_withAttribute _ (by decide))
    have hinList : inList.responseExamples = t.responseExamples :=
      funext (t.responseExamples_withAttribute _ (by decide))
    rw [examples, examples, hresponses, hresponses', hbyStatus, hinList, ok_bind, ok_bind]
    have htests : Alike (List.Forall₂ (List.Forall₂ Reordered))
        (responses.mapM t.responseExamples) (responses'.mapM t.responseExamples) :=
      Alike.mapM (fun _ _ hresponse => alike_responseExamples hresponse) hsame
    exact htests.bind fun tests tests' hall => .ok (List.rel_flatten hall)
  have hdescribed : inList.describedResponses = byStatus.describedResponses :=
    (hexamples.bind_eq fun _ _ hall => (renderedResponses_of_reordered hall).symm).symm
  refine ⟨⟨responses, responses', hresponses, hresponses', hsame⟩, hexamples, fun components => ?_⟩
  rw [rendered_withResponses, rendered_withResponses, hdescribed]

/-- A success and an empty response in both forms, the status of the success written first. -/
theorem rendered_of_carries_pair :
    let success : Fields := [("description", .str "OK"), ("schema", .str "widget")]
    let entries : Fields := [("200", .map success), ("404", .null)]
    let listed : List Value :=
      [.map ((.str "status", .str "200") :: success), .map [("status", .str "404")]]
    let t := ofFields [("id", .str "A")]
    List.Forall₂ Carries entries listed ∧
      ∀ components, (t.withAttribute "responses" (.seq listed)).rendered components =
        (t.withAttribute "responses" (.map entries)).rendered components := by
  intro success entries listed t
  have hsuccess : Carries ("200", .map success) (.map ((.str "status", .str "200") :: success)) :=
    ⟨"200", _, rfl, rfl, by decide, .inr ⟨success, rfl, by decide, by decide⟩⟩
  have hempty : Carries ("404", .null) (.map [("status", .str "404")]) :=
    ⟨"404", _, rfl, rfl, by decide, .inl rfl⟩
  have hforms : List.Forall₂ Carries entries listed := .cons hsuccess (.cons hempty .nil)
  exact ⟨hforms, (t.rendered_of_carries hforms).2.2⟩

end OperationView
end ApiTree
