import ApiTree.Proofs.Operation.Body

/-!
# Where linked examples lead

A body that is written as the name of a component links the examples of the component by pointers. A
pointer is put together from the name as it is written and from the escaped key of an example, while
the component is looked up under the key that the name stands for. Reading the pointer decodes both,
and so it leads back to the example (`rendered_links_resolve`).
-/

set_option autoImplicit false

namespace ApiTree.OperationView

/-! ## The pointers -/

/-- The pieces of the pointer to an example: the name of the body and the key of the example among
what is the same for all of them. -/
def examplePieces (name key : String) : List String :=
  ["components", "requestBodies", name, "content", "application~1json", "examples",
    Pointer.escape key]

theorem exampleReference_eq (name : String) (key : Value) :
    exampleReference name key =
      .reference (String.intercalate "/" ("#" :: examplePieces name key.text)) := by
  have hstart : bodyPrefix =
      "#" ++ ("/" ++ ("components" ++ ("/" ++ ("requestBodies" ++ "/")))) := rfl
  have hmiddle : "/content/application~1json/examples/" =
      "/" ++ ("content" ++ ("/" ++ ("application~1json" ++ ("/" ++ ("examples" ++ "/"))))) := rfl
  rw [exampleReference, examplePieces, hstart, hmiddle]
  simp only [String.intercalate_cons_cons, String.intercalate_singleton, String.append_assoc]

theorem noSlash_examplePieces {name : String} (h : '/' ∉ name.toList) (key : String) :
    ∀ piece ∈ examplePieces name key, '/' ∉ piece.toList := by
  intro piece hpiece
  simp only [examplePieces, List.mem_cons, List.not_mem_nil, or_false] at hpiece
  rcases hpiece with rfl | rfl | rfl | rfl | rfl | rfl | rfl
  · decide
  · decide
  · exact h
  · decide
  · decide
  · decide
  · exact Pointer.noSlash_escape key

/-- The tokens of the pointer are the keys that lead to the examples, and then the key of one. -/
theorem decode_examplePieces (name key : String) :
    (examplePieces name key).map (fun piece => String.ofList (Pointer.decode piece.toList)) =
      "components" :: (examplesOfBody name ++ [key]) := by
  have hmedia : String.ofList (Pointer.decode "application~1json".toList) = "application/json" := by
    decide
  rw [examplePieces, examplesOfBody, ← Pointer.decode_eq_unescape]
  simp only [List.map_cons, List.map_nil, Pointer.decode_escape, String.ofList_toList, hmedia]
  rfl

/-- The pointer leads to the example of the component whose key the name stands for. -/
theorem resolve?_exampleReference {name key : String} (hslash : '/' ∉ name.toList)
    {components v : Value} {examples : Fields}
    (hplace : components.at? (examplesOfBody name) = some (.map examples))
    (hv : Fields.get? key examples = some v) :
    Pointer.resolve? (String.intercalate "/" ("#" :: examplePieces name key))
      (.single "components" components) = some v := by
  apply Pointer.resolve?_intercalate (noSlash_examplePieces hslash key)
  rw [decode_examplePieces, Value.at?_single, Value.at?_append, hplace, Option.bind_some]
  exact Option.bind_eq_some_iff.mpr ⟨v, hv, rfl⟩

/-! ## Links in a description -/

/-- The description links examples under one of its media types. -/
def Links (op : Fields) (links : Value) : Prop :=
  ∃ body content type media, Fields.get? "requestBody" op = some (.map body) ∧
    Fields.get? "content" body = some (.map content) ∧ (type, .map media) ∈ content ∧
    Fields.get? "examples" media = some links

variable {t : OperationView}

/-- The examples that a named body links are those of the component whose key the name stands
for. -/
theorem exists_of_links {name : String} (hbody : t.NamesBody name) {components : Value}
    {op : Fields} (h : t.rendered components = .ok op) {links : Value} (hlinks : Links op links) :
    ∃ examples, '/' ∉ name.toList ∧ links = .map (linked name examples) ∧
      components.at? (examplesOfBody name) = some (.map examples) := by
  obtain ⟨found, content, rest, hfound, hop, hcontent⟩ := hbody.get?_requestBody h
  obtain ⟨body, types, type, media, hbody', htypes, hmem, hmedia⟩ := hlinks
  -- there is one body, with the same under each of its media types
  obtain rfl := Value.map.inj (Option.some.inj (hop.symm.trans hbody'))
  obtain rfl := Value.map.inj (Option.some.inj htypes)
  obtain rfl := Value.map.inj (hcontent _ hmem)
  rw [get?_examples_entryIfAny] at hmedia
  split at hmedia
  · cases hmedia
  · next hnonempty =>
    rw [← Option.some.inj hmedia]
    rw [componentExamples_bodyReference] at hfound
    split at hfound
    · next hsegment =>
      obtain ⟨v, hv, rfl⟩ := map_eq_ok.mp hfound
      rw [eq_of_descend hv] at hnonempty ⊢
      -- something is linked, and so there are examples
      by_cases hexamples : ∃ examples, components.at? (examplesOfBody name) = some (.map examples)
      · obtain ⟨examples, hexamples⟩ := hexamples
        refine ⟨examples, ?_, ?_, hexamples⟩
        · intro hslash
          rw [List.contains_iff_mem.mpr hslash, Bool.not_true, Bool.and_false] at hsegment
          cases hsegment
        · rw [hexamples]
          rfl
      · have hnone : entriesOf (.ofOption (components.at? (examplesOfBody name))) = [] :=
          entriesOf_ofOption_eq_nil fun entries _ heq => hexamples ⟨entries, heq⟩
        rw [hnone] at hnonempty
        exact absurd rfl hnonempty
    · obtain rfl := Except.ok.inj hfound
      exact absurd rfl hnonempty

/-- Every example that is linked is found. All links lead into one component, and each of them has
the key of an example there, to which its pointer leads in the document with the components. A
document has texts as its keys; the token of another key is what it reads as. -/
theorem rendered_links_resolve {name : String} (hbody : t.NamesBody name) {components : Value}
    {op : Fields} (h : t.rendered components = .ok op) :
    ∃ key, ∀ links, Links op links → ∃ entries examples, links = .map entries ∧
      components.at? ["requestBodies", key, "content", "application/json", "examples"] =
        some (.map examples) ∧
      Entries.keys entries = Entries.keys examples ∧
      ∀ k v, (k, v) ∈ entries → ∃ pointer, v = .reference pointer ∧
        Pointer.tokens? pointer = some ["components", "requestBodies", key, "content",
          "application/json", "examples", k.text] ∧
        ∀ own, k = .str own → ∃ v, Fields.get? own examples = some v ∧
          Pointer.resolve? pointer (.single "components" components) = some v := by
  refine ⟨String.ofList (unescape name.toList), fun links hlinks => ?_⟩
  obtain ⟨examples, hslash, rfl, hplace⟩ := exists_of_links hbody h hlinks
  refine ⟨linked name examples, examples, rfl, hplace, ?_, fun k v hmem => ?_⟩
  · rw [linked, Entries.keys, List.map_map]
    rfl
  · obtain ⟨e, he, heq⟩ := List.mem_map.mp hmem
    obtain ⟨rfl, rfl⟩ := Prod.mk.inj heq
    refine ⟨_, exampleReference_eq name e.1, ?_, fun own hown => ?_⟩
    · rw [Pointer.tokens?_intercalate (noSlash_examplePieces hslash _), decode_examplePieces]
      rfl
    · have hkey : Value.str own ∈ Entries.keys examples := hown ▸ List.mem_map_of_mem he
      obtain ⟨found, hfound⟩ := Entries.exists_get?_of_mem_keys hkey
      refine ⟨found, hfound, ?_⟩
      rw [hown]
      exact resolve?_exampleReference hslash hplace hfound

/-- A name that is escaped, and an example whose key is escaped in its pointer. -/
theorem rendered_links_resolve_escaped :
    let examples : Fields := [("", .int 1), ("x/~1", .int 2)]
    let components := bodyWith "a/~b" examples
    let op := oneBodyDescription [("schema", .reference (bodyReference "a~1~0b")),
      ("examples", .map (linked "a~1~0b" examples))]
    let start := "#/components/requestBodies/a~1~0b/content/application~1json/examples/"
    let links : Fields := [("", .reference start), ("x/~1", .reference (start ++ "x~1~01"))]
    (oneBody "a~1~0b").NamesBody "a~1~0b" ∧ (oneBody "a~1~0b").rendered components = .ok op ∧
      Links op (.map links) ∧
      ∃ key found, components.at? ["requestBodies", key, "content", "application/json",
          "examples"] = some (.map found) ∧
        ∃ v, Fields.get? "x/~1" found = some v ∧
          Pointer.resolve? (start ++ "x~1~01") (.single "components" components) = some v := by
  intro examples components op start links
  have hbody : (oneBody "a~1~0b").NamesBody "a~1~0b" := .inl (by decide)
  have hop : (oneBody "a~1~0b").rendered components = .ok op := by
    rw [rendered_eq]
    rfl
  have hlinks : Links op (.map links) :=
    ⟨_, _, _, _, rfl, rfl, List.mem_singleton_self _, by decide⟩
  refine ⟨hbody, hop, hlinks, ?_⟩
  obtain ⟨key, hkey⟩ := rendered_links_resolve hbody hop
  obtain ⟨entries, found, hentries, hplace, -, hresolve⟩ := hkey _ hlinks
  obtain rfl := Value.map.inj hentries
  have hlast : ((.str "x/~1" : Value), Value.reference (start ++ "x~1~01")) ∈ links :=
    List.mem_cons_of_mem _ (List.mem_singleton_self _)
  obtain ⟨pointer, hpointer, -, hleads⟩ := hresolve _ _ hlast
  have hsame : start ++ "x~1~01" = pointer := by
    simpa [Value.reference, Value.single] using hpointer
  exact ⟨key, found, hplace, hsame ▸ hleads _ rfl⟩

end ApiTree.OperationView
