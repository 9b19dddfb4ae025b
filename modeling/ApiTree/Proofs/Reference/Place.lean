import ApiTree.Proofs.Reference.Idempotence

/-!
# The forms of places

A path is read as the pieces between the slashes of its keys, written with slashes between them.
The pieces lead to a named schema if a container of schemas is followed by a name, and to the schema
of a component if they name it below a kind that has content. `leadToSchema_reverse_iff` and
`leadToComponent_iff` say that the tests on pieces decide these forms.
-/

set_option autoImplicit false

namespace ApiTree.Reference

/-! ## Forms -/

/-- Nothing, or one keyword that composes schemas. -/
def MayCompose (ps : List Piece) : Prop := ps = [] ∨ ∃ keyword ∈ compositions, ps = [keyword]

/-- A name follows a container of schemas: `properties` below something, or the named schemas of the
document. The key `items` may follow the name, and a keyword that composes schemas after that. -/
def NamesSchema (ps : List Piece) : Prop :=
  ∃ before container name items composition,
    ps = before ++ [container, name] ++ items ++ composition ∧ name ≠ [] ∧
      (items = [] ∨ items = ["items".toList]) ∧ MayCompose composition ∧
      (container = "properties".toList ∧ before ≠ [] ∨
        before ++ [container] = ["components", "schemas"].map String.toList)

/-- The schema of the component of the given kind and name, which may stand in its content under the
media type whose pieces are `json`. A keyword that composes schemas may follow. -/
def NamesContent (json : List Piece) (kind : String) (name : Piece) (ps : List Piece) : Prop :=
  ∃ content composition,
    ps = ["components".toList, kind.toList, name] ++ content ++ ["schema".toList] ++ composition ∧
      kind.toList ∈ contentKinds ∧ (content = [] ∨ content = "content".toList :: json) ∧
      MayCompose composition

/-- The pieces of the media type of JSON. -/
def jsonPieces : List Piece := ["application", "json"].map String.toList

/-! ## Named schemas -/

/-- A test that may skip one piece. -/
theorem or_skipOne_iff (test : List Piece → Bool) (p : Piece → Bool) (back : List Piece) :
    (test back || test (skipOne p back)) = true ↔
      ∃ skipped rest, back = skipped ++ rest ∧ (skipped = [] ∨ ∃ x, p x = true ∧ skipped = [x]) ∧
        test rest = true := by
  constructor
  · intro h
    rcases Bool.or_eq_true _ _ ▸ h with hwhole | hskip
    · exact ⟨[], back, rfl, .inl rfl, hwhole⟩
    · cases back with
      | nil => exact ⟨[], [], rfl, .inl rfl, hskip⟩
      | cons x xs =>
        rw [skipOne] at hskip
        by_cases hx : p x = true
        · rw [if_pos hx] at hskip
          exact ⟨[x], xs, rfl, .inr ⟨x, hx, rfl⟩, hskip⟩
        · rw [if_neg hx] at hskip
          exact ⟨[], x :: xs, rfl, .inl rfl, hskip⟩
  · rintro ⟨skipped, rest, rfl, rfl | ⟨x, hx, rfl⟩, hrest⟩
    · simp [hrest]
    · simp [skipOne, hx, hrest]

theorem endsInName_iff (back : List Piece) :
    endsInName back = true ↔ ∃ name container before, back = name :: container :: before ∧
      name ≠ [] ∧ (container = "properties".toList ∧ before ≠ [] ∨
        container = "schemas".toList ∧ before = ["components".toList]) := by
  match back with
  | [] => simp [endsInName]
  | [_] => simp [endsInName]
  | name :: container :: before => simp [endsInName]

/-- From the last piece back, the test finds a keyword, then `items`, then the name. -/
theorem leadToSchema_iff (back : List Piece) :
    leadToSchema back = true ↔ ∃ composition items rest, back = composition ++ (items ++ rest) ∧
      MayCompose composition ∧ (items = [] ∨ items = ["items".toList]) ∧
      endsInName rest = true := by
  have hskip := or_skipOne_iff
    (fun ps => endsInName ps || endsInName (skipOne (· == "items".toList) ps))
    compositions.contains back
  rw [← Bool.or_assoc] at hskip
  refine hskip.trans ?_
  constructor
  · rintro ⟨composition, rest, rfl, hcomposition, hrest⟩
    obtain ⟨items, rest, rfl, hitems, hname⟩ := (or_skipOne_iff _ _ _).mp hrest
    refine ⟨composition, items, rest, rfl, ?_, ?_, hname⟩
    · exact hcomposition.imp id fun ⟨x, hx, h⟩ => ⟨x, by simpa using hx, h⟩
    · exact hitems.imp id fun ⟨x, hx, h⟩ => by rw [h, eq_of_beq hx]
  · rintro ⟨composition, items, rest, rfl, hcomposition, hitems, hname⟩
    refine ⟨composition, items ++ rest, rfl, ?_, (or_skipOne_iff _ _ _).mpr ?_⟩
    · exact hcomposition.imp id fun ⟨x, hx, h⟩ => ⟨x, by simpa using hx, h⟩
    · exact ⟨items, rest, rfl, hitems.imp id fun h => ⟨_, by simp, h⟩, hname⟩

theorem MayCompose.reverse {ps : List Piece} (h : MayCompose ps) : ps.reverse = ps := by
  rcases h with rfl | ⟨keyword, -, rfl⟩
  · rfl
  · rfl

/-- The pieces lead to a named schema exactly when they have its form. -/
theorem leadToSchema_reverse_iff (ps : List Piece) :
    leadToSchema ps.reverse = true ↔ NamesSchema ps := by
  rw [leadToSchema_iff]
  have hreverse {items : List Piece} (h : items = [] ∨ items = ["items".toList]) :
      items.reverse = items := by
    rcases h with rfl | rfl
    · rfl
    · rfl
  constructor
  · rintro ⟨composition, items, rest, hps, hcomposition, hitems, hrest⟩
    obtain ⟨name, container, before, rfl, hname, hcontainer⟩ := (endsInName_iff rest).mp hrest
    refine ⟨before.reverse, container, name, items, composition, ?_, hname, hitems, hcomposition,
      ?_⟩
    · rw [← List.reverse_reverse ps, hps]
      simp [hreverse hitems, hcomposition.reverse]
    · rcases hcontainer with ⟨rfl, hbefore⟩ | ⟨rfl, rfl⟩
      · exact .inl ⟨rfl, by simpa using hbefore⟩
      · exact .inr rfl
  · rintro ⟨before, container, name, items, composition, rfl, hname, hitems, hcomposition,
      hcontainer⟩
    refine ⟨composition, items, name :: container :: before.reverse, ?_, hcomposition, hitems,
      (endsInName_iff _).mpr ⟨name, container, before.reverse, rfl, hname, ?_⟩⟩
    · simp [hreverse hitems, hcomposition.reverse]
    · rcases hcontainer with ⟨rfl, hbefore⟩ | hschemas
      · exact .inl ⟨rfl, by simpa using hbefore⟩
      · have hsplit : before ++ [container] = ["components".toList] ++ ["schemas".toList] :=
          hschemas
        obtain ⟨hbefore, hlast⟩ := List.append_inj' hsplit rfl
        exact .inr ⟨List.head_eq_of_cons_eq hlast, by rw [hbefore]; rfl⟩

/-! ## Schemas of components -/

theorem endInSchema_iff (ps : List Piece) :
    endInSchema ps = true ↔ ∃ composition, ps = "schema".toList :: composition ∧
      MayCompose composition := by
  match ps with
  | [] => simp [endInSchema]
  | [schema] => simp [endInSchema, MayCompose]
  | [schema, keyword] => simp [endInSchema, MayCompose]
  | schema :: keyword :: other :: rest => simp [endInSchema, MayCompose]

/-- The pieces that may stand between the name of a component and its schema. -/
def contentStart : List Piece := "content".toList :: jsonPieces

/-- The JSON content of a component is skipped if it is written. -/
theorem endInSchema_skip_iff (rest : List Piece) :
    endInSchema (if contentStart.isPrefixOf rest then rest.drop 3 else rest) = true ↔
      ∃ content composition, rest = content ++ "schema".toList :: composition ∧
        (content = [] ∨ content = contentStart) ∧ MayCompose composition := by
  by_cases hcontent : contentStart.isPrefixOf rest = true
  · obtain ⟨rest, rfl⟩ := List.isPrefixOf_iff_prefix.mp hcontent
    rw [if_pos hcontent, show (contentStart ++ rest).drop 3 = rest from rfl, endInSchema_iff]
    constructor
    · rintro ⟨composition, rfl, hcomposition⟩
      exact ⟨contentStart, composition, rfl, .inr rfl, hcomposition⟩
    · rintro ⟨content, composition, hrest, rfl | rfl, hcomposition⟩
      -- what starts with the content is not the schema itself
      · exact absurd (List.head_eq_of_cons_eq hrest) (by decide)
      · exact ⟨composition, List.append_cancel_left hrest, hcomposition⟩
  · rw [if_neg hcontent, endInSchema_iff]
    constructor
    · rintro ⟨composition, rfl, hcomposition⟩
      exact ⟨[], composition, rfl, .inl rfl, hcomposition⟩
    · rintro ⟨content, composition, rfl, rfl | rfl, hcomposition⟩
      · exact ⟨composition, rfl, hcomposition⟩
      · exact absurd (List.isPrefixOf_iff_prefix.mpr (List.prefix_append _ _)) hcontent

theorem leadToComponent_cons (components kind name : Piece) (rest : List Piece) :
    leadToComponent (components :: kind :: name :: rest) = true ↔
      ((components = "components".toList ∧ kind ∈ contentKinds) ∧ name ≠ []) ∧
        endInSchema (if contentStart.isPrefixOf rest then rest.drop 3 else rest) = true := by
  have hrest : leadToComponent (components :: kind :: name :: rest) =
      (components == "components".toList && contentKinds.contains kind && !name.isEmpty &&
        endInSchema (if contentStart.isPrefixOf rest then rest.drop 3 else rest)) := rfl
  rw [hrest, Bool.and_eq_true, Bool.and_eq_true, Bool.and_eq_true, beq_iff_eq,
    List.contains_iff_mem, Bool.not_eq_true', List.isEmpty_eq_false_iff]

/-- The pieces lead to the schema of a component exactly when they have its form. -/
theorem leadToComponent_iff (ps : List Piece) :
    leadToComponent ps = true ↔ ∃ kind, ∃ name ≠ [], NamesContent jsonPieces kind name ps := by
  constructor
  · intro h
    match ps with
    | [] | [_] | [_, _] => cases h
    | components :: kind :: name :: rest =>
      rw [leadToComponent_cons, endInSchema_skip_iff] at h
      obtain ⟨⟨⟨rfl, hkind⟩, hname⟩, content, composition, rfl, hcontent, hcomposition⟩ := h
      refine ⟨String.ofList kind, name, hname, content, composition, ?_, ?_, hcontent,
        hcomposition⟩
      · simp
      · rwa [String.toList_ofList]
  · rintro ⟨kind, name, hname, content, composition, rfl, hkind, hcontent, hcomposition⟩
    rw [List.append_assoc, List.append_assoc]
    refine (leadToComponent_cons _ _ _ _).mpr ⟨⟨⟨rfl, hkind⟩, hname⟩, ?_⟩
    exact (endInSchema_skip_iff _).mpr ⟨content, composition, rfl, hcontent, hcomposition⟩

end ApiTree.Reference
