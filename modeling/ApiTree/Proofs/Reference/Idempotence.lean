import ApiTree.Proofs.Except
import ApiTree.Proofs.Text.Cut
import ApiTree.Reference.Expand

/-!
# Expanding a document twice

A document is expanded when every text at the place of a shorthand name has become a reference. The
text of such a reference stands one key deeper, at `$ref`, and a second expansion meets it there. It
leaves the text alone unless `$ref` is itself the place of a name: this happens below a schema or a
property that is named `properties` and given by its mere name, and nowhere else
(`isSchemaPlace_reference_iff`). So a second expansion changes nothing exactly when no text stands
at such a place (`expand_idempotent_iff`).
-/

set_option autoImplicit false

namespace ApiTree.Reference

mutual

/-- The texts of a value at the end of a path, each with the path of keys that leads to it. The
elements of a list stand at the place of the list. -/
def textsAt (path : List String) : Value → List (List String × String)
  | .str s => [(path, s)]
  | .seq items => textsOfItems path items
  | .map entries => textsOfEntries path entries
  | _ => []

/-- The texts of the elements of a list at the end of a path. -/
def textsOfItems (path : List String) : List Value → List (List String × String)
  | [] => []
  | v :: vs => textsAt path v ++ textsOfItems path vs

/-- The texts of the entries of a mapping at the end of a path. -/
def textsOfEntries (path : List String) : List (Value × Value) → List (List String × String)
  | [] => []
  | (k, v) :: es => textsAt (path ++ [k.text]) v ++ textsOfEntries path es

end

/-- The texts of a document with the paths of keys that lead to them. -/
def texts (document : Value) : List (List String × String) := textsAt [] document

/-- A path as places are read off it: its keys with slashes between them. -/
def joined (path : List String) : String := String.intercalate "/" path

/-- The path leads to a schema or property that is named `properties`. -/
def NamesProperties (path : List String) : Prop :=
  isSchemaPlace (joined path) = true ∧ "/properties".toList <:+ (joined path).toList

/-! ## The place of a reference -/

theorem toList_joined_concat {path : List String} (h : path ≠ []) (key : String) :
    (joined (path ++ [key])).toList = (joined path).toList ++ '/' :: key.toList := by
  rw [joined, String.intercalate_append_of_ne_nil h (by simp)]
  simp [joined]

theorem readings_of_getLast? {cs : List Char} (h : cs.getLast? ≠ some '\n') :
    readings cs = [cs] := by
  rw [readings, if_neg h]

theorem pieces_concat (cs : List Char) {key : List Char} (h : key.contains '/' = false) :
    pieces (cs ++ '/' :: key) = pieces cs ++ [key] := by
  have hkey (c : Char) (hc : c ∈ key) : (c == '/') = false := by
    cases hslash : c == '/' with
    | false => rfl
    | true =>
      rw [eq_of_beq hslash, ← List.contains_iff_mem, h] at hc
      cases hc
  rw [pieces, Text.splitWhere_append_cons (by rfl), Text.splitWhere_of_forall_not hkey]
  rfl

/-- The pieces of a path end with `properties` after others exactly when its text does. -/
theorem properties_suffix_iff (cs : List Char) :
    "/properties".toList <:+ cs ↔
      ∃ before, before ≠ [] ∧ pieces cs = before ++ ["properties".toList] := by
  constructor
  · rintro ⟨before, rfl⟩
    exact ⟨pieces before, Text.splitWhere_ne_nil _ _, pieces_concat before rfl⟩
  · rintro ⟨before, hb, h⟩
    obtain ⟨ys, s, hs, rfl, -⟩ := Text.exists_of_splitWhere_concat hb h
    have hslash : s = '/' := by simpa using hs
    exact ⟨ys, by rw [hslash]; rfl⟩

/-- The key `$ref`, read from the end of a path, is a name exactly below a container of schemas. -/
theorem leadToSchema_ref (back : List Piece) :
    leadToSchema ("$ref".toList :: back) = endsInName ("$ref".toList :: back) := by
  have hitems : skipOne (fun p => p == "items".toList) ("$ref".toList :: back) =
      "$ref".toList :: back := by
    simp [skipOne]
  have hwhole : skipOne compositions.contains ("$ref".toList :: back) = "$ref".toList :: back := by
    simp [skipOne, compositions]
  simp only [leadToSchema, hwhole, hitems, Bool.or_self]

/-- The pieces are the schema of a component or what it is composed of. -/
def endInSchema : List Piece → Bool
  | [schema] => schema == "schema".toList
  | [schema, keyword] => schema == "schema".toList && compositions.contains keyword
  | _ => false

theorem endInSchema_concat {ps : List Piece} {last : Piece} (hs : last ≠ "schema".toList)
    (hc : compositions.contains last = false) : endInSchema (ps ++ [last]) = false := by
  match ps with
  | [] => simpa [endInSchema] using hs
  | [a] => simpa [endInSchema] using fun _ => by simpa using hc
  | a :: b :: ps => cases ps <;> rfl

/-- No place of the schema of a component ends with a piece that is neither `schema` nor a keyword
that composes schemas. -/
theorem leadToComponent_concat {ps : List Piece} {last : Piece} (hs : last ≠ "schema".toList)
    (hc : compositions.contains last = false) : leadToComponent (ps ++ [last]) = false := by
  match ps with
  | [] | [a] => rfl
  | [a, b] => simp [leadToComponent]
  | a :: b :: c :: rest =>
    have hrest : endInSchema
        (if (["content", "application", "json"].map String.toList).isPrefixOf (rest ++ [last])
          then (rest ++ [last]).drop 3 else rest ++ [last]) = false := by
      split
      -- the media type may take the last piece with it, and then nothing is left
      · rcases Nat.lt_or_ge rest.length 3 with hlt | hge
        · rw [List.drop_eq_nil_of_le (by simp; omega)]
          rfl
        · rw [List.drop_append_of_le_length hge]
          exact endInSchema_concat hs hc
      · exact endInSchema_concat hs hc
    rw [List.cons_append, List.cons_append, List.cons_append]
    show (_ && endInSchema _) = false
    rw [hrest, Bool.and_false]

/-- A place that ends with the piece `properties` is the place of a named schema. -/
theorem isSchemaPlace_of_properties_suffix {s : String}
    (hplace : isSchemaPlace s = true ∨ isComponentPlace s = true)
    (hs : "/properties".toList <:+ s.toList) : isSchemaPlace s = true := by
  rcases hplace with h | h
  · exact h
  · obtain ⟨before, hb⟩ := hs
    -- the place has one reading only, since it does not end with a newline
    have hlast : s.toList.getLast? ≠ some '\n' := by
      simp [← hb]
    have hpieces : pieces s.toList = pieces before ++ ["properties".toList] := by
      rw [← hb]
      exact pieces_concat before rfl
    rw [isComponentPlace, readings_of_getLast? hlast, List.any_cons, List.any_nil, Bool.or_false,
      hpieces, leadToComponent_concat (by decide) (by decide)] at h
    exact absurd h Bool.false_ne_true

theorem eq_components_schemas {s : String}
    (h : pieces s.toList = ["components".toList] ++ ["schemas".toList]) :
    s = "components/schemas" := by
  obtain ⟨ys, c, hc, hs, hys⟩ := Text.exists_of_splitWhere_concat (List.cons_ne_nil _ _) h
  have hslash : c = '/' := by simpa using hc
  rw [← String.toList_inj, hs, hslash, Text.eq_of_splitWhere_singleton hys]
  rfl

/-- The container of the named schemas is no place itself. -/
theorem ne_components_schemas {s : String}
    (hplace : isSchemaPlace s = true ∨ isComponentPlace s = true) : s ≠ "components/schemas" := by
  rintro rfl
  rcases hplace with h | h
  · exact absurd h (by decide)
  · exact absurd h (by decide)

/-- Below an expanded text the key `$ref` is the place of a named schema exactly when the text stood
under the name `properties`. -/
theorem isSchemaPlace_reference_iff {path : List String} (hp : path ≠ [])
    (hplace : isSchemaPlace (joined path) = true ∨ isComponentPlace (joined path) = true) :
    isSchemaPlace (joined (path ++ ["$ref"])) = true ↔ NamesProperties path := by
  have hlast : ((joined path).toList ++ '/' :: "$ref".toList).getLast? ≠ some '\n' := by
    simp
  rw [isSchemaPlace, toList_joined_concat hp, readings_of_getLast? hlast, List.any_cons,
    List.any_nil, Bool.or_false, pieces_concat _ rfl, List.reverse_append,
    List.reverse_singleton, List.singleton_append, leadToSchema_ref]
  constructor
  · intro h
    have hsuffix : "/properties".toList <:+ (joined path).toList := by
      -- the last piece of the place is the container in which `$ref` is a name
      cases hr : (pieces (joined path).toList).reverse with
      | nil => rw [hr] at h; exact absurd h (by decide)
      | cons container before =>
        have hps : pieces (joined path).toList = before.reverse ++ [container] := by
          rw [← List.reverse_reverse (pieces _), hr, List.reverse_cons]
        have hcontainer : container = "properties".toList ∧ before ≠ [] ∨
            container = "schemas".toList ∧ before = ["components".toList] := by
          simpa [hr, endsInName] using h
        rcases hcontainer with ⟨rfl, hb⟩ | ⟨rfl, rfl⟩
        · exact (properties_suffix_iff _).mpr ⟨_, by simpa using hb, hps⟩
        · exact absurd (eq_components_schemas hps) (ne_components_schemas hplace)
    exact ⟨isSchemaPlace_of_properties_suffix hplace hsuffix, hsuffix⟩
  · rintro ⟨-, hsuffix⟩
    obtain ⟨before, hb, hps⟩ := (properties_suffix_iff _).mp hsuffix
    simp [hps, endsInName, hb]

theorem isComponentPlace_reference {path : List String} (hp : path ≠ []) :
    isComponentPlace (joined (path ++ ["$ref"])) = false := by
  have hlast : ((joined path).toList ++ '/' :: "$ref".toList).getLast? ≠ some '\n' := by
    simp
  rw [isComponentPlace, toList_joined_concat hp, readings_of_getLast? hlast, List.any_cons,
    List.any_nil, Bool.or_false, pieces_concat _ rfl]
  exact leadToComponent_concat (by decide) (by decide)

/-! ## A second expansion -/

/-- A text becomes a reference at a place and stays as it is elsewhere. -/
theorem expandText_cases {path : List String} {name : String} {r : Value}
    (h : expandText path name = .ok r) :
    (r = .str name ∧ isSchemaPlace (joined path) = false ∧ isComponentPlace (joined path) = false) ∨
      (∃ target, r = .reference target) ∧
        (isSchemaPlace (joined path) = true ∨ isComponentPlace (joined path) = true) := by
  unfold expandText at h
  change (if isSchemaPlace (joined path) then _ else if isComponentPlace (joined path) then _
    else _) = _ at h
  by_cases hs : isSchemaPlace (joined path) = true
  · rw [if_pos hs] at h
    exact .inr ⟨⟨_, (Except.ok.inj h).symm⟩, .inl hs⟩
  · rw [if_neg hs] at h
    by_cases hc : isComponentPlace (joined path) = true
    · rw [if_pos hc] at h
      split at h
      · exact .inr ⟨⟨_, (Except.ok.inj h).symm⟩, .inr hc⟩
      · cases h
    · rw [if_neg hc] at h
      exact .inl ⟨(Except.ok.inj h).symm, by simpa using hs, by simpa using hc⟩

theorem ne_nil_of_place {path : List String}
    (h : isSchemaPlace (joined path) = true ∨ isComponentPlace (joined path) = true) :
    path ≠ [] := by
  rintro rfl
  rcases h with h | h
  · exact absurd h (by decide)
  · exact absurd h (by decide)

theorem expandAt_reference (path : List String) (target : String) :
    expandAt path (.reference target) =
      (expandText (path ++ ["$ref"]) target).map fun v => .map [(.str "$ref", v)] := by
  have htext : (Value.str "$ref").text = "$ref" := rfl
  simp only [Value.reference, Value.single, expandAt, expandEntries, htext]
  cases expandText (path ++ ["$ref"]) target <;> rfl

/-- A second expansion leaves a reference alone unless its text stands under the name
`properties`. -/
theorem expandAt_reference_iff {path : List String} {target : String}
    (hplace : isSchemaPlace (joined path) = true ∨ isComponentPlace (joined path) = true) :
    expandAt path (.reference target) = .ok (.reference target) ↔ ¬ NamesProperties path := by
  have hp : path ≠ [] := ne_nil_of_place hplace
  rw [expandAt_reference, ← isSchemaPlace_reference_iff hp hplace]
  have hc := isComponentPlace_reference hp
  cases hs : isSchemaPlace (joined (path ++ ["$ref"])) with
  | true =>
    rw [joined] at hs
    simp [expandText, hs, Except.map, Value.reference, Value.single]
  | false =>
    rw [joined] at hs hc
    simp [expandText, hs, hc, Except.map, Value.reference, Value.single]

theorem expandItems_cons_eq_ok {path : List String} {v : Value} {vs rs : List Value} :
    expandItems path (v :: vs) = .ok rs ↔
      ∃ r qs, expandAt path v = .ok r ∧ expandItems path vs = .ok qs ∧ rs = r :: qs := by
  rw [expandItems]
  cases expandAt path v with
  | error f => simp [bind, Except.bind]
  | ok r =>
    cases expandItems path vs with
    | error f => simp [bind, Except.bind]
    | ok qs => simp [bind, Except.bind, pure, Except.pure, eq_comm]

theorem expandEntries_cons_eq_ok {path : List String} {k v : Value} {es fs : Fields} :
    expandEntries path ((k, v) :: es) = .ok fs ↔
      ∃ r gs, expandAt (path ++ [k.text]) v = .ok r ∧ expandEntries path es = .ok gs ∧
        fs = (k, r) :: gs := by
  rw [expandEntries]
  cases expandAt (path ++ [k.text]) v with
  | error f => simp [bind, Except.bind]
  | ok r =>
    cases expandEntries path es with
    | error f => simp [bind, Except.bind]
    | ok gs => simp [bind, Except.bind, pure, Except.pure, eq_comm]

mutual

/-- A value that has been expanded at the end of a path is left alone by a second expansion there
exactly when none of the texts of the original stands under the name `properties`. -/
theorem expandAt_expandAt_iff : ∀ {path : List String} {v r : Value}, expandAt path v = .ok r →
    (expandAt path r = .ok r ↔ ∀ t ∈ textsAt path v, ¬ NamesProperties t.1)
  | path, .str s, r, h => by
    rw [textsAt, List.forall_mem_singleton]
    have hcases := expandText_cases (by simpa [expandAt] using h)
    -- a text that was left alone is no place; one that was expanded has become a reference
    rcases hcases with ⟨rfl, hs, -⟩ | ⟨⟨target, rfl⟩, hplace⟩
    · exact iff_of_true h fun hn => by simp [hn.1] at hs
    · exact expandAt_reference_iff hplace
  | path, .seq items, r, h => by
    obtain ⟨rs, hrs, rfl⟩ := map_eq_ok.mp (by simpa [expandAt] using h)
    rw [textsAt, ← expandItems_expandItems_iff hrs, expandAt, map_eq_ok]
    simp
  | path, .map entries, r, h => by
    obtain ⟨fs, hfs, rfl⟩ := map_eq_ok.mp (by simpa [expandAt] using h)
    rw [textsAt, ← expandEntries_expandEntries_iff hfs, expandAt, map_eq_ok]
    simp
  | path, .null, r, h | path, .bool _, r, h | path, .int _, r, h | path, .float _, r, h
  | path, .date _, r, h | path, .timestamp _, r, h | path, .bytes _, r, h | path, .set _, r, h
  | path, .pair _ _, r, h => by
    obtain rfl := Except.ok.inj h
    simp [textsAt, expandAt]

theorem expandItems_expandItems_iff : ∀ {path : List String} {vs rs : List Value},
    expandItems path vs = .ok rs →
    (expandItems path rs = .ok rs ↔ ∀ t ∈ textsOfItems path vs, ¬ NamesProperties t.1)
  | path, [], rs, h => by
    obtain rfl := Except.ok.inj h
    simp [textsOfItems, expandItems]
  | path, v :: vs, rs, h => by
    obtain ⟨r, qs, hr, hqs, rfl⟩ := expandItems_cons_eq_ok.mp h
    rw [textsOfItems, List.forall_mem_append, ← expandAt_expandAt_iff hr,
      ← expandItems_expandItems_iff hqs, expandItems_cons_eq_ok]
    constructor
    · rintro ⟨_, _, h1, h2, heq⟩
      obtain ⟨rfl, rfl⟩ := List.cons.inj heq
      exact ⟨h1, h2⟩
    · rintro ⟨h1, h2⟩
      exact ⟨r, qs, h1, h2, rfl⟩

theorem expandEntries_expandEntries_iff : ∀ {path : List String} {es fs : List (Value × Value)},
    expandEntries path es = .ok fs →
    (expandEntries path fs = .ok fs ↔ ∀ t ∈ textsOfEntries path es, ¬ NamesProperties t.1)
  | path, [], fs, h => by
    obtain rfl := Except.ok.inj h
    simp [textsOfEntries, expandEntries]
  | path, (k, v) :: es, fs, h => by
    obtain ⟨r, gs, hr, hgs, rfl⟩ := expandEntries_cons_eq_ok.mp h
    rw [textsOfEntries, List.forall_mem_append, ← expandAt_expandAt_iff hr,
      ← expandEntries_expandEntries_iff hgs, expandEntries_cons_eq_ok]
    constructor
    · rintro ⟨_, _, h1, h2, heq⟩
      obtain ⟨hentry, rfl⟩ := List.cons.inj heq
      rw [← (Prod.mk.inj hentry).2] at h1
      exact ⟨h1, h2⟩
    · rintro ⟨h1, h2⟩
      exact ⟨r, gs, h1, h2, rfl⟩

end

/-- Expanding an expanded document changes nothing exactly when no text of the document stands at
the place of a schema or property that is named `properties`. -/
theorem expand_idempotent_iff {document expanded : Value} (h : expand document = .ok expanded) :
    expand expanded = .ok expanded ↔ ∀ t ∈ texts document, ¬ NamesProperties t.1 :=
  expandAt_expandAt_iff h

/-- A document with one schema, of the given name. -/
def schemaDocument (name : String) (schema : Value) : Value :=
  .single "components" (.single "schemas" (.single name schema))

/-- A property that is given by the name of a schema, under its owner. -/
theorem expand_idempotent_iff_property :
    expand (schemaDocument "Widget" (.single "properties" (.single "owner" (.str "User")))) =
        .ok (schemaDocument "Widget" (.single "properties"
          (.single "owner" (.reference "#/components/schemas/User")))) ∧
      (expand (schemaDocument "Widget" (.single "properties"
          (.single "owner" (.reference "#/components/schemas/User")))) =
          .ok (schemaDocument "Widget" (.single "properties"
            (.single "owner" (.reference "#/components/schemas/User")))) ↔
        ∀ t ∈ texts (schemaDocument "Widget"
          (.single "properties" (.single "owner" (.str "User")))), ¬ NamesProperties t.1) :=
  ⟨rfl, expand_idempotent_iff rfl⟩

/-- A schema with the name `properties` that stands for another one: the text of its reference is
expanded again. -/
theorem expand_twice_schema_properties :
    expand (schemaDocument "properties" (.str "Widget")) =
        .ok (schemaDocument "properties" (.reference "#/components/schemas/Widget")) ∧
      expand (schemaDocument "properties" (.reference "#/components/schemas/Widget")) ≠
        .ok (schemaDocument "properties" (.reference "#/components/schemas/Widget")) := by
  refine ⟨rfl, ?_⟩
  have htwice : expand (schemaDocument "properties" (.reference "#/components/schemas/Widget")) =
      .ok (schemaDocument "properties" (.single "$ref"
        (.reference "#/components/schemas/#/components/schemas/Widget"))) := rfl
  rw [htwice]
  intro h
  exact absurd (Except.ok.inj h) (by decide)

end ApiTree.Reference
