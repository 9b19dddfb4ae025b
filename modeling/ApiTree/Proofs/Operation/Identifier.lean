import ApiTree.Proofs.Fragment.Transform
import ApiTree.Proofs.Operation.Rendered

/-!
# The identifier of an operation

The identifier of an operation is read off its fragment twice. The document takes it from its full
name, and from the short name only if the full one is absent (`get?_operationId_withOperation`). A
view takes the last of all keys that have the full name as their plain name, so that it knows a key
that the document does not, the identifier written as an extension. Both read one identifier if the
last of these keys is the one that the document takes (`operationId_iff_of_endsInIdentifier`).
-/

set_option autoImplicit false

namespace ApiTree

namespace Fragment

theorem get?_operationId_identified (data : Fields) :
    Fields.get? "operationId" (identified data) =
      (Fields.get? "operationId" data).or (Fields.get? "id" data) := by
  unfold identified
  cases hshort : Fields.get? "id" data with
  | none => exact (Option.or_none).symm
  | some id =>
    simp only
    split
    · next hfull =>
      obtain ⟨own, hown⟩ := Option.isSome_iff_exists.mp hfull
      rw [Fields.get?, hown]
      rfl
    · next hfull =>
      have hnone : Fields.get? "operationId" data = none := Option.not_isSome_iff_eq_none.mp hfull
      rw [Fields.get?_put_self, hnone]
      rfl

/-- Naming the schemas of the responses changes nothing but the responses. -/
theorem get?_withNamedSchemas {name : String} (hname : name ≠ "responses") (data : Fields) :
    Fields.get? name (withNamedSchemas data) = Fields.get? name data := by
  unfold withNamedSchemas
  split
  · exact Fields.get?_put_of_ne hname _ _
  · exact Fields.get?_put_of_ne hname _ _
  · rfl

/-- The document takes the identifier from its full name and only then from the short one. -/
theorem get?_operationId_withOperation {f : Fragment} (hkind : f.kind.isOperation = true)
    (data : Fields) :
    Fields.get? "operationId" (withOperation f data) =
      (Fields.get? "operationId" data).or (Fields.get? "id" data) := by
  rw [withOperation_eq, if_pos hkind, get?_withNamedSchemas (by decide),
    get?_operationId_identified]

end Fragment

namespace OperationView

/-- The last key that gives a view the identifier is the one that the document takes it from. -/
def EndsInIdentifier (content : Fields) : Prop :=
  ∀ e ∈ (entriesNamed "operationId" content).getLast?,
    e.1 = .str "operationId" ∨ (e.1 = .str "id" ∧ Fields.has "operationId" content = false)

/-- A key that has the full name as its plain name is absent if no entry gives the identifier. -/
theorem get?_of_entriesNamed_eq_nil {name : String} {content : Fields} {key : String}
    (hkey : plainName (.str key) = name) (h : entriesNamed name content = []) :
    Fields.get? key content = none := by
  apply Entries.get?_eq_none_iff.mpr
  intro hmem
  obtain ⟨e, he, hname⟩ := List.mem_map.mp hmem
  have hentry : e ∈ entriesNamed name content := by
    refine List.mem_filter.mpr ⟨he, decide_eq_true ?_⟩
    rw [hname, hkey]
  rw [h] at hentry
  cases hentry

/-- The last key that gives a view the identifier holds the identifier of the document. -/
theorem getLast?_entriesNamed_operationId {content : Fields}
    (hkeys : (Entries.keys content).Nodup) (h : EndsInIdentifier content) :
    ((entriesNamed "operationId" content).getLast?).map Prod.snd =
      (Fields.get? "operationId" content).or (Fields.get? "id" content) := by
  cases hlast : (entriesNamed "operationId" content).getLast? with
  | none =>
    have hnil := List.getLast?_eq_none_iff.mp hlast
    rw [get?_of_entriesNamed_eq_nil (by decide) hnil, get?_of_entriesNamed_eq_nil (by decide) hnil]
    rfl
  | some e =>
    have hmem : e ∈ content := (List.mem_filter.mp (List.mem_of_getLast? hlast)).1
    have hvalue : Entries.get? e.1 content = some e.2 := Entries.get?_of_mem hkeys hmem
    rcases h e hlast with hfull | ⟨hshort, habsent⟩
    · rw [hfull] at hvalue
      rw [Fields.get?, hvalue]
      rfl
    · rw [hshort] at hvalue
      have hnone : Fields.get? "operationId" content = none :=
        Option.not_isSome_iff_eq_none.mp (Bool.eq_false_iff.mp habsent)
      rw [hnone, Fields.get?, hvalue]
      rfl

/-- A view tells the identifier that it has, if there is one. -/
theorem operationId_eq_ok_some_iff {t : OperationView} {s : String} :
    t.operationId = .ok (some s) ↔
      (t.written "operationId").isTruthy = true ∧ (t.written "operationId").toText = .ok s := by
  rw [operationId]
  constructor
  · intro h
    split at h
    · next htruthy =>
      obtain ⟨text, htext, hsome⟩ := map_eq_ok.mp (mapError_eq_ok.mp h)
      exact ⟨htruthy, by rw [htext, Option.some.inj hsome]⟩
    · split at h
      · cases h
      · cases h
      · split at h
        · cases h
        · cases h
  · rintro ⟨htruthy, htext⟩
    rw [if_pos htruthy, htext]
    rfl

/-- The view and the document read one identifier of an operation, if the last key that gives the
view the identifier is the one that the document takes it from. -/
theorem operationId_iff_of_endsInIdentifier {f : Fragment} (hkind : f.kind.isOperation = true)
    {content : Fields} (hkeys : (Entries.keys content).Nodup) (hlast : EndsInIdentifier content)
    (legacyPrefixes : List String) :
    (∀ s, (ofFields content legacyPrefixes).operationId = .ok (some s) ↔
      ∃ id, Fields.get? "operationId" (Fragment.withOperation f content) = some id ∧
        id.isTruthy = true ∧ id.toText = .ok s) ∧
    ∀ s, s ≠ "" →
      Fields.get? "operationId" (Fragment.withOperation f content) = some (.str s) →
        (ofFields content legacyPrefixes).operationId = .ok (some s) := by
  have hwritten : (ofFields content legacyPrefixes).written "operationId" =
      .ofOption (Fields.get? "operationId" (Fragment.withOperation f content)) := by
    rw [written, Fields.getD, get?_attributes, getLast?_entriesNamed_operationId hkeys hlast,
      Fragment.get?_operationId_withOperation hkind]
  have hiff : ∀ s, (ofFields content legacyPrefixes).operationId = .ok (some s) ↔
      ∃ id, Fields.get? "operationId" (Fragment.withOperation f content) = some id ∧
        id.isTruthy = true ∧ id.toText = .ok s := by
    intro s
    rw [operationId_eq_ok_some_iff, hwritten]
    cases Fields.get? "operationId" (Fragment.withOperation f content) with
    | none => simp [Value.ofOption, Value.isTruthy]
    | some id => simp [Value.ofOption]
  refine ⟨hiff, fun s hs hid => (hiff s).mpr ⟨.str s, hid, ?_, rfl⟩⟩
  simpa [Value.isTruthy] using hs

/-- An operation without responses. -/
def bareOperation (content : Fields) : Fragment :=
  ⟨"get.yml", content, .operation, none, none, none⟩

/-- The full name counts over the short name and the extension that stand before it. -/
theorem operationId_iff_of_fullName :
    let content : Fields :=
      [("x-operationId", .str "extension"), ("id", .str "short"), ("operationId", .str "full")]
    (bareOperation content).kind.isOperation = true ∧ (Entries.keys content).Nodup ∧
      EndsInIdentifier content ∧ (ofFields content []).operationId = .ok (some "full") := by
  intro content
  have hlast : EndsInIdentifier content := by
    intro e he
    have hfull : (entriesNamed "operationId" content).getLast? =
        some (.str "operationId", .str "full") := by decide
    rw [hfull] at he
    exact .inl (congrArg Prod.fst (Option.some.inj he)).symm
  have hkeys : (Entries.keys content).Nodup := by decide
  refine ⟨rfl, hkeys, hlast, ?_⟩
  have hfull : Fields.get? "operationId"
      (Fragment.withOperation (bareOperation content) content) = some (.str "full") := by decide
  exact (operationId_iff_of_endsInIdentifier rfl hkeys hlast []).2 "full" (by decide) hfull

/-- An identifier that is written as an extension is known to the view alone. -/
theorem operationId_of_extension :
    let content : Fields := [("x-operationId", .str "A")]
    (bareOperation content).kind.isOperation = true ∧
      (ofFields content []).operationId = .ok (some "A") ∧
      ¬ ∃ id, Fields.get? "operationId" (Fragment.withOperation (bareOperation content) content) =
        some id ∧ id.toText = .ok "A" := by
  intro content
  refine ⟨rfl, operationId_eq_ok_some_iff.mpr (by decide), ?_⟩
  rintro ⟨id, hid, -⟩
  rw [Fragment.get?_operationId_withOperation rfl] at hid
  cases hid

end OperationView
end ApiTree
