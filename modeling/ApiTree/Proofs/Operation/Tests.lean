import ApiTree.Proofs.Operation.Examples

/-!
# Which value a test has at a key

The tests of a response are its master example and its documented ones. Each is written in layers, so
that its value at a key is that of the last layer that has the key: for the master example the
defaults of a test, the response, what all tests of the operation have, and the mark; for a documented
example the master example and what the example itself writes. The values are read off the layers for
every key at once (`get?_masterStart`, `exists_isDocumented`), and from there for all tests of an
operation (`examples_of_testable`).
-/

set_option autoImplicit false

namespace ApiTree.OperationView

variable {t : OperationView}

/-! ## What responses are to write -/

/-- The value is a mapping that writes each key once. -/
def IsMapping (v : Value) : Prop := ∃ own, v = .map own ∧ (Entries.keys own).Nodup

/-- Tests can be made from the entries: the steps after a test are a list, if there are any, and the
examples are one mapping or a list of mappings, or null. -/
structure Ready (entries : Fields) : Prop where
  unique : (Entries.keys entries).Nodup
  after : ∀ v, Fields.get? "after" entries = some v → ∃ steps, v = .seq steps
  examples : ∀ e ∈ (Fields.getD "examples" entries).toItems, IsMapping e

/-- The response is null, or a mapping from which tests can be made. -/
def IsTestable (response : Value) : Prop :=
  response = .null ∨ ∃ entries, response = .map entries ∧ Ready entries

theorem ready_nil : Ready [] := by
  refine ⟨List.nodup_nil, fun v hv => ?_, fun e he => ?_⟩
  · cases hv
  · cases he

namespace Ready

variable {entries : Fields} {key : String}

protected theorem put (h : Ready entries) (hafter : key ≠ "after") (hexamples : key ≠ "examples")
    (v : Value) : Ready (Fields.put key v entries) := by
  refine ⟨Entries.nodup_keys_put _ _ h.unique, fun w hw => ?_, fun e he => ?_⟩
  · rw [Fields.get?_put_of_ne (Ne.symm hafter)] at hw
    exact h.after w hw
  · rw [Fields.getD, Fields.get?_put_of_ne (Ne.symm hexamples)] at he
    exact h.examples e he

protected theorem putIfNull (h : Ready entries) (hafter : key ≠ "after")
    (hexamples : key ≠ "examples") (v : Value) : Ready (putIfNull key v entries) := by
  rw [OperationView.putIfNull]
  split
  · exact h.put hafter hexamples v
  · exact h

theorem putIfNull_examples (h : Ready entries) :
    Ready (OperationView.putIfNull "examples" (.seq []) entries) := by
  rw [OperationView.putIfNull]
  split
  · refine ⟨Entries.nodup_keys_put _ _ h.unique, fun w hw => ?_, fun e he => ?_⟩
    · rw [Fields.get?_put_of_ne (by decide)] at hw
      exact h.after w hw
    · rw [Fields.getD, Fields.get?_put_self] at he
      cases he
  · exact h

/-- A response from which tests can be made is still one when it is completed. -/
theorem completed (h : Ready entries) {status : Value} {response : Fields}
    (hresponse : completeResponse status (.map entries) = .ok response) : Ready response := by
  rw [completeResponse_map] at hresponse
  obtain ⟨text, -, heq⟩ := bind_eq_ok.mp hresponse
  rw [← Except.ok.inj heq]
  have hstatus : Ready (OperationView.putIfNull "status" status entries) :=
    h.putIfNull (by decide) (by decide) status
  have htext := hstatus.put (show "status" ≠ "after" by decide) (by decide) text
  exact (htext.putIfNull (by decide) (by decide) (.str "")).putIfNull_examples

end Ready

theorem IsTestable.completed {status response : Value} (h : IsTestable response)
    {fields : Fields} (hfields : completeResponse status response = .ok fields) :
    Ready fields := by
  rcases h with rfl | ⟨entries, rfl, hready⟩
  · exact ready_nil.completed hfields
  · exact hready.completed hfields

/-- Tests can be made from all responses of an operation, if they can be made from what is written. -/
theorem ready_of_responses {written : List Value}
    (hwritten : responsesOf ((t.written "responses").orElse (.map [])) = .ok written)
    (htestable : ∀ r ∈ written, IsTestable r) {responses : List Fields}
    (h : t.responses = .ok responses) : ∀ response ∈ responses, Ready response := by
  -- each response is completed by itself, in either form
  have hall {α : Type} {f : α → Except Failure Fields} {as : List α}
      (hf : ∀ a ∈ as, ∀ fields, f a = .ok fields → Ready fields)
      (hresponses : as.mapM f = .ok responses) : ∀ response ∈ responses, Ready response := by
    have heach : ∀ a ∈ as, ∃ fields, f a = .ok fields ∧ Ready fields := by
      intro a ha
      obtain ⟨fields, hfields⟩ := succeeds_mapM.mp ⟨responses, hresponses⟩ a ha
      exact ⟨fields, hfields, hf a ha fields hfields⟩
    obtain ⟨fields, hfields, hready⟩ := exists_mapM_ok_forall.mpr heach
    rwa [Except.ok.inj (hresponses.symm.trans hfields)]
  rw [OperationView.responses] at h
  cases hvalue : (t.written "responses").orElse (.map []) with
  | map entries =>
    rw [hvalue] at h hwritten
    refine hall (fun e he fields hfields => ?_) h
    apply (htestable e.2 _).completed hfields
    rw [← Except.ok.inj hwritten]
    exact List.mem_map_of_mem he
  | _ =>
    rw [hvalue] at h hwritten
    obtain ⟨elements, helements, hresponses⟩ := bind_eq_ok.mp h
    obtain rfl := Except.ok.inj (hwritten.symm.trans helements)
    exact hall (fun r hr fields hfields => (htestable r hr).completed hfields) hresponses

/-! ## Master examples -/

/-- The value of a master example at a key: the mark, what all tests of the operation have, the value
of the response, or a default. -/
def masterValue? (t : OperationView) (response : Fields) (key : Value) : Option Value :=
  if key = .str "master_example" then some (.bool true)
  else
    (if key = .str "core-version" then Entries.get? key t.attributes else none).or
      ((if key = .str "examples" then none else Entries.get? key response).or
        (Entries.get? key exampleDefaults))

/-- The steps after the master example of a response: those of the response, or none as the default
has it, and the look at the data of a success if it is not there and not turned off. -/
def stepsAfter (response : Fields) : List Value :=
  let steps := (Fields.getD "after" response).toItems
  if Fields.getD "status" response = .str "200" ∧ Fields.getD dataCheck response ≠ .bool false ∧
      .str dataCheck ∉ steps then
    steps ++ [.str dataCheck]
  else steps

/-- The entries are those of the master example of a response, its schema left open. -/
structure IsMaster (t : OperationView) (response master : Fields) : Prop where
  unique : (Entries.keys master).Nodup
  value : ∀ key, key ≠ .str "schema" → key ≠ .str "after" →
    Entries.get? key master = masterValue? t response key
  after : Fields.get? "after" master = some (.seq (stepsAfter response))

theorem nodup_keys_masterOn (schema : Value) (response : Fields) :
    (Entries.keys (masterOn t schema response)).Nodup := by
  apply Entries.nodup_keys_put
  apply Entries.nodup_keys_put
  apply Entries.nodup_keys_putAll
  exact Entries.nodup_keys_putAll (by decide)

/-- Before the steps after it are looked at, a master example has the value of its last layer at each
key but that of the schema. -/
theorem get?_masterOn {response : Fields} (h : (Entries.keys response).Nodup) (schema : Value)
    {key : Value} (hkey : key ≠ .str "schema") :
    Entries.get? key (masterOn t schema response) = masterValue? t response key := by
  have honce := Entries.ofPairs_of_nodup (Entries.nodup_keys_erase (.str "examples") h)
  rw [masterOn, Fields.put, Entries.get?_put_of_ne (Ne.symm hkey), Fields.put, Entries.get?_put,
    get?_testOf_layers, Fields.erase, honce, Entries.get?_erase key _ h, masterValue?]
  simp only [eq_comm (a := Value.str "master_example")]

/-- The steps after a test are those of the response, or none as by default. -/
theorem get?_after_masterOn {response : Fields} (h : Ready response) (schema : Value) :
    Fields.get? "after" (masterOn t schema response) =
      some (.seq (Fields.getD "after" response).toItems) := by
  have hlayers : Fields.get? "after" (masterOn t schema response) =
      (Fields.get? "after" response).or (some (.seq [])) := get?_masterOn h.unique schema (by decide)
  rw [hlayers, Fields.getD]
  cases hown : Fields.get? "after" response with
  | none => rfl
  | some v =>
    obtain ⟨steps, rfl⟩ := h.after v hown
    rfl

theorem withDataCheck_seq (steps : List Value) :
    withDataCheck (.seq steps) =
      .ok (.seq (if .str dataCheck ∈ steps then steps else steps ++ [.str dataCheck])) := by
  have hsteps : (Value.seq steps).orElse (.seq []) = .seq steps := by
    cases steps <;> rfl
  rw [withDataCheck, hsteps, Value.elements, ok_bind]
  simp only [List.contains_iff_mem]
  rfl

/-- A response from which tests can be made has a master example. -/
theorem exists_masterExample {response : Fields} (h : Ready response) :
    ∃ master, t.masterExample response = .ok master ∧ IsMaster t response master := by
  obtain ⟨schema, hmaster⟩ := exists_masterOn t response
  have hget {key : Value} (hkey : key ≠ .str "schema") :
      Entries.get? key (masterOn t schema response) = masterValue? t response key :=
    get?_masterOn h.unique schema hkey
  have hafter := get?_after_masterOn (t := t) h schema
  have hunique := nodup_keys_masterOn (t := t) schema response
  have hsteps : Fields.getD "after" (masterOn t schema response) =
      .seq (Fields.getD "after" response).toItems := congrArg Value.ofOption hafter
  have hstatus : Fields.getD "status" (masterOn t schema response) =
      Fields.getD "status" response :=
    congrArg Value.ofOption ((hget (by decide)).trans Option.or_none)
  have hcheck : Fields.getD dataCheck (masterOn t schema response) =
      Fields.getD dataCheck response :=
    congrArg Value.ofOption ((hget (by decide)).trans Option.or_none)
  rw [hmaster, withSteps, hstatus, hcheck, hsteps]
  by_cases hlook : Fields.getD "status" response = .str "200" ∧
      Fields.getD dataCheck response ≠ .bool false
  · rw [if_pos (by simpa using hlook), withDataCheck_seq]
    refine ⟨_, rfl, Entries.nodup_keys_put _ _ hunique, fun key hkey hne => ?_, ?_⟩
    · exact (Entries.get?_put_of_ne (Ne.symm hne) _ _).trans (hget hkey)
    · rw [Fields.get?_put_self, stepsAfter]
      simp only [hlook.1, hlook.2, ne_eq, not_false_eq_true, true_and, ite_not]
  · rw [if_neg (by simpa using hlook)]
    refine ⟨_, rfl, hunique, fun key hkey _ => hget hkey, ?_⟩
    rw [hafter, stepsAfter, if_neg fun hall => hlook ⟨hall.1, hall.2.1⟩]

/-! ## Documented examples -/

/-- The value of a documented example at a key: for its description what the example gives as its
description, and else what the example writes, or the value of the master example. -/
def documentedValue? (own master : Fields) (key : Value) : Option Value :=
  if key = .str "example_description" then some (Fields.getD "description" own)
  else
    (if key = .str "description" then none else Entries.get? key own).or
      (if key ∈ masterOnly.map .str then none else Entries.get? key master)

/-- The entries are those of a documented example, its schema left open. -/
def IsDocumented (master : Fields) (written : Value) (test : Fields) : Prop :=
  (Entries.keys test).Nodup ∧ ∃ own, written = .map own ∧
    ∀ key, key ≠ .str "schema" → Entries.get? key test = documentedValue? own master key

theorem exists_isDocumented {written : Value} (h : IsMapping written) {master : Fields}
    (hmaster : (Entries.keys master).Nodup) :
    ∃ test, documentedExample written (.map master) = .ok test ∧
      IsDocumented master written test := by
  obtain ⟨own, rfl, hown⟩ := h
  obtain ⟨schema, htest⟩ := exists_documentedOn own master
  refine ⟨_, htest, ?_, own, rfl, fun key hkey => ?_⟩
  · apply Entries.nodup_keys_put
    apply Entries.nodup_keys_put
    apply Entries.nodup_keys_putAll
    exact hmaster.sublist (List.filter_sublist.map Prod.fst)
  · rw [get?_documentedOn schema own master hkey, Entries.ofPairs_of_nodup hown, documentedValue?]

/-! ## The tests of an operation -/

/-- The tests are those of a response: its master example and then its documented ones, in order. -/
def TestsOf (t : OperationView) (response : Fields) (tests : List Fields) : Prop :=
  ∃ master documented, tests = master :: documented ∧ IsMaster t response master ∧
    List.Forall₂ (IsDocumented master) (Fields.getD "examples" response).toItems documented

theorem exists_responseExamples {response : Fields} (h : Ready response) :
    ∃ tests, t.responseExamples response = .ok tests ∧ TestsOf t response tests := by
  obtain ⟨master, hmaster, hvalues⟩ := exists_masterExample (t := t) h
  have heach : ∀ e ∈ (Fields.getD "examples" response).toItems,
      ∃ test, documentedExample e (.map master) = .ok test ∧ IsDocumented master e test :=
    fun e he => exists_isDocumented (h.examples e he) hvalues.unique
  obtain ⟨documented, hdocumented, htests⟩ := exists_mapM_ok_forall₂ heach
  refine ⟨master :: documented, ?_, master, documented, rfl, hvalues, htests⟩
  rw [responseExamples, hmaster, ok_bind]
  dsimp only
  rw [hdocumented]
  rfl

/-- The tests of an operation are those of its responses, one response after another, if each
response that is written is null or a mapping from which tests can be made. There are tests whenever
there are responses, and for these only a status that cannot be written out is an obstacle. -/
theorem examples_of_testable {written : List Value}
    (hwritten : responsesOf ((t.written "responses").orElse (.map [])) = .ok written)
    (htestable : ∀ r ∈ written, IsTestable r) :
    (Succeeds t.responses ↔
      ∀ r ∈ written, (Fields.getD "status" (entriesOf r)).hasLiteral = true) ∧
    (∀ f, t.responses = .error f → t.examples = .error f) ∧
    ∀ responses, t.responses = .ok responses →
      ∃ tests, List.Forall₂ (TestsOf t) responses tests ∧ t.examples = .ok tests.flatten := by
  refine ⟨?_, fun f hf => ?_, fun responses hresponses => ?_⟩
  · rw [succeeds_responses, hwritten]
    simp only [Except.ok.injEq, exists_eq_left']
  · rw [examples, hf]
    rfl
  · have hready := ready_of_responses hwritten htestable hresponses
    obtain ⟨tests, htests, hall⟩ := exists_mapM_ok_forall₂ fun response hresponse =>
      exists_responseExamples (t := t) (hready response hresponse)
    refine ⟨tests, hall, ?_⟩
    rw [examples, hresponses, ok_bind, htests]
    rfl

/-- A view of an operation with a success that has a step and an example, and an empty response. -/
def stepAndExample : OperationView :=
  ofFields [("id", .str "A"), ("core-version", .int 2), ("responses", .map [
    ("200", .map [("after", .seq [.str "log"]),
      ("examples", .seq [.map [("description", .str "one"), ("focus", .bool true)]])]),
    ("404", .null)])]

/-- The success has the look at the data after its own step, and the empty response has only its
master example. -/
theorem examples_of_testable_stepAndExample :
    let one : Value := .map [("description", .str "one"), ("focus", .bool true)]
    let success : Fields := [("after", .seq [.str "log"]), ("examples", .seq [one])]
    let written : List Value := [.map success, .null]
    let completed : Fields :=
      success ++ ([("status", .str "200"), ("description", .str "")] : Fields)
    let empty : Fields :=
      [("status", .str "404"), ("description", .str ""), ("examples", .seq [])]
    responsesOf ((stepAndExample.written "responses").orElse (.map [])) = .ok written ∧
      (∀ r ∈ written, IsTestable r) ∧ stepAndExample.responses = .ok [completed, empty] ∧
      stepsAfter completed = [.str "log", .str dataCheck] ∧
      ∃ tests, List.Forall₂ (TestsOf stepAndExample) [completed, empty] tests ∧
        stepAndExample.examples = .ok tests.flatten := by
  intro one success written completed empty
  have hwritten : responsesOf ((stepAndExample.written "responses").orElse (.map [])) =
      .ok written := rfl
  have hone : IsMapping one := ⟨_, rfl, by decide⟩
  have hsuccess : Ready success := by
    refine ⟨by decide, fun v hv => ?_, fun e he => ?_⟩
    · exact ⟨_, (Option.some.inj hv).symm⟩
    · rw [List.mem_singleton.mp he]
      exact hone
  have htestable : ∀ r ∈ written, IsTestable r := by
    simp only [written, List.forall_mem_cons, List.not_mem_nil, false_implies, implies_true,
      and_true]
    exact ⟨.inr ⟨success, rfl, hsuccess⟩, .inl rfl⟩
  have hresponses : stepAndExample.responses = .ok [completed, empty] := rfl
  exact ⟨hwritten, htestable, hresponses, by decide,
    (examples_of_testable hwritten htestable).2.2 _ hresponses⟩

end ApiTree.OperationView
