import ApiTree.Proofs.Reference.Place

/-!
# What an expansion replaces

An expansion keeps the shape of a document and replaces its texts, each by what stands for it at the
path of keys that leads to it (`expandAt_eq_mapTexts`). What stands for a text is decided by the
readings of the path: the pieces between the slashes of its keys when they are written with slashes
between them, and the same without a newline at the very end.
-/

set_option autoImplicit false

namespace ApiTree.Reference

/-! ## Texts and their places -/

mutual

/-- The value at the end of a path with each text in it replaced by what `f` gives for its path and
itself. -/
def mapTexts (f : List String → String → Value) (path : List String) : Value → Value
  | .str s => f path s
  | .seq items => .seq (mapTextsOfItems f path items)
  | .map entries => .map (mapTextsOfEntries f path entries)
  | v => v

/-- The elements of a list at the end of a path with each text in them replaced. -/
def mapTextsOfItems (f : List String → String → Value) (path : List String) :
    List Value → List Value
  | [] => []
  | v :: vs => mapTexts f path v :: mapTextsOfItems f path vs

/-- The entries of a mapping at the end of a path with each text in their values replaced. -/
def mapTextsOfEntries (f : List String → String → Value) (path : List String) :
    List (Value × Value) → List (Value × Value)
  | [] => []
  | (k, v) :: es => (k, mapTexts f (path ++ [k.text]) v) :: mapTextsOfEntries f path es

end

mutual

/-- An expansion replaces each text by what stands for it and keeps everything else. -/
theorem expandAt_eq_mapTexts (f : List String → String → Value) :
    ∀ (path : List String) (v : Value),
      (∀ t ∈ textsAt path v, expandText t.1 t.2 = .ok (f t.1 t.2)) →
        expandAt path v = .ok (mapTexts f path v)
  | path, .str s, h => by
    rw [expandAt, mapTexts]
    exact h (path, s) (by simp [textsAt])
  | path, .seq items, h => by
    rw [textsAt] at h
    rw [expandAt, mapTexts, expandItems_eq_mapTexts f path items h]
    rfl
  | path, .map entries, h => by
    rw [textsAt] at h
    rw [expandAt, mapTexts, expandEntries_eq_mapTexts f path entries h]
    rfl
  | _, .null, _ | _, .bool _, _ | _, .int _, _ | _, .float _, _ | _, .date _, _
  | _, .timestamp _, _ | _, .bytes _, _ | _, .set _, _ | _, .pair _ _, _ => rfl

theorem expandItems_eq_mapTexts (f : List String → String → Value) :
    ∀ (path : List String) (vs : List Value),
      (∀ t ∈ textsOfItems path vs, expandText t.1 t.2 = .ok (f t.1 t.2)) →
        expandItems path vs = .ok (mapTextsOfItems f path vs)
  | _, [], _ => rfl
  | path, v :: vs, h => by
    rw [textsOfItems, List.forall_mem_append] at h
    rw [expandItems, expandAt_eq_mapTexts f path v h.1, expandItems_eq_mapTexts f path vs h.2]
    rfl

theorem expandEntries_eq_mapTexts (f : List String → String → Value) :
    ∀ (path : List String) (es : List (Value × Value)),
      (∀ t ∈ textsOfEntries path es, expandText t.1 t.2 = .ok (f t.1 t.2)) →
        expandEntries path es = .ok (mapTextsOfEntries f path es)
  | _, [], _ => rfl
  | path, (k, v) :: es, h => by
    rw [textsOfEntries, List.forall_mem_append] at h
    rw [expandEntries, expandAt_eq_mapTexts f (path ++ [k.text]) v h.1,
      expandEntries_eq_mapTexts f path es h.2]
    rfl

end

/-! ## What stands for a text -/

/-- The ways in which a path of keys is read. -/
def readingsOf (path : List String) : List (List Piece) :=
  (readings (joined path).toList).map pieces

/-- A reading of the path is a named schema, or what it is composed of. -/
def LeadsToSchema (path : List String) : Prop := ∃ ps ∈ readingsOf path, NamesSchema ps

/-- A reading of the path is the schema of a component of the given kind, or what it is composed
of. -/
def LeadsToContent (kind : String) (path : List String) : Prop :=
  ∃ ps ∈ readingsOf path, ∃ name ≠ [], NamesContent jsonPieces kind name ps

theorem isSchemaPlace_joined_iff (path : List String) :
    isSchemaPlace (joined path) = true ↔ LeadsToSchema path := by
  rw [isSchemaPlace, List.any_eq_true, LeadsToSchema, readingsOf]
  constructor
  · rintro ⟨cs, hcs, hlead⟩
    exact ⟨pieces cs, List.mem_map_of_mem hcs, (leadToSchema_reverse_iff _).mp hlead⟩
  · rintro ⟨ps, hps, hnames⟩
    obtain ⟨cs, hcs, rfl⟩ := List.mem_map.mp hps
    exact ⟨cs, hcs, (leadToSchema_reverse_iff _).mpr hnames⟩

theorem isComponentPlace_joined_iff (path : List String) :
    isComponentPlace (joined path) = true ↔ ∃ kind, LeadsToContent kind path := by
  rw [isComponentPlace, List.any_eq_true]
  constructor
  · rintro ⟨cs, hcs, hlead⟩
    obtain ⟨kind, name, hname, hnames⟩ := (leadToComponent_iff _).mp hlead
    exact ⟨kind, pieces cs, List.mem_map_of_mem hcs, name, hname, hnames⟩
  · rintro ⟨kind, ps, hps, name, hname, hnames⟩
    obtain ⟨cs, hcs, rfl⟩ := List.mem_map.mp hps
    exact ⟨cs, hcs, (leadToComponent_iff _).mpr ⟨kind, name, hname, hnames⟩⟩

/-- The reference to a named schema. -/
def schemaReference (name : String) : Value := .reference ("#/components/schemas/" ++ name)

/-- The reference to the schema of the JSON content of a component. -/
def contentReference (kind name : String) : Value :=
  .reference ("#/components/" ++ kind ++ "/" ++ name ++ "/content/application~1json/schema")

theorem expandText_of_schema {path : List String} (h : LeadsToSchema path) (name : String) :
    expandText path name = .ok (schemaReference name) := by
  unfold expandText
  exact if_pos ((isSchemaPlace_joined_iff path).mpr h)

theorem expandText_of_content {path : List String} (hschema : ¬ LeadsToSchema path) {kind : String}
    (hcontent : LeadsToContent kind path) {second : String} (hsecond : path[1]? = some second)
    (name : String) : expandText path name = .ok (contentReference second name) := by
  have hplace : isComponentPlace (joined path) = true :=
    (isComponentPlace_joined_iff path).mpr ⟨kind, hcontent⟩
  rw [← isSchemaPlace_joined_iff] at hschema
  match path with
  | [] | [_] => cases hsecond
  | first :: key :: rest =>
    obtain rfl := Option.some.inj hsecond
    rw [expandText]
    exact (if_neg hschema).trans (if_pos hplace)

theorem expandText_of_neither {path : List String} (hschema : ¬ LeadsToSchema path)
    (hcontent : ∀ kind, ¬ LeadsToContent kind path) (name : String) :
    expandText path name = .ok (.str name) := by
  have hplace : ¬ isComponentPlace (joined path) = true := fun hplace => by
    obtain ⟨kind, hkind⟩ := (isComponentPlace_joined_iff path).mp hplace
    exact hcontent kind hkind
  rw [← isSchemaPlace_joined_iff] at hschema
  unfold expandText
  exact (if_neg hschema).trans (if_neg hplace)

theorem expandText_eq_error_iff {path : List String} {name : String} {f : Failure} :
    expandText path name = .error f ↔ f = .outOfRange ∧ isSchemaPlace (joined path) = false ∧
      isComponentPlace (joined path) = true ∧ path.length ≤ 1 := by
  unfold expandText
  change (if isSchemaPlace (joined path) then _ else if isComponentPlace (joined path) then _
    else _) = _ ↔ _
  cases isSchemaPlace (joined path) with
  | true => simp
  | false =>
    cases isComponentPlace (joined path) with
    | false => simp
    | true =>
      match path with
      | [] | [_] => simp [eq_comm]
      | _ :: _ :: _ => simp

/-- What stands for a text, and the text itself where nothing does. -/
def replacement (path : List String) (name : String) : Value :=
  match expandText path name with
  | .ok v => v
  | .error _ => .str name

theorem replacement_of_ok {path : List String} {name : String} {v : Value}
    (h : expandText path name = .ok v) : replacement path name = v := by
  rw [replacement, h]

/-! ## What an expansion gives -/

/-- Each text of the value at the end of a path can be expanded. -/
def Expandable (path : List String) (v : Value) : Prop :=
  ∀ t ∈ textsAt path v, ∃ r, expandText t.1 t.2 = .ok r

theorem expandAt_of_expandable {path : List String} {v : Value} (h : Expandable path v) :
    expandAt path v = .ok (mapTexts replacement path v) := by
  refine expandAt_eq_mapTexts replacement path v fun t ht => ?_
  obtain ⟨r, hr⟩ := h t ht
  rw [hr, replacement_of_ok hr]

mutual

/-- The path of a text starts with the path of the value that it is in. -/
theorem prefix_of_mem_textsAt : ∀ (v : Value) {path : List String} {t : List String × String},
    t ∈ textsAt path v → path <+: t.1
  | .str _, _, _, h => by
    rw [List.mem_singleton.mp h]
  | .seq items, _, _, h => prefix_of_mem_textsOfItems items h
  | .map entries, _, _, h => prefix_of_mem_textsOfEntries entries h
  | .null, _, _, h | .bool _, _, _, h | .int _, _, _, h | .float _, _, _, h | .date _, _, _, h
  | .timestamp _, _, _, h | .bytes _, _, _, h | .set _, _, _, h | .pair _ _, _, _, h => by cases h

theorem prefix_of_mem_textsOfItems : ∀ (vs : List Value) {path : List String}
    {t : List String × String}, t ∈ textsOfItems path vs → path <+: t.1
  | [], _, _, h => by cases h
  | v :: vs, _, _, h => (List.mem_append.mp h).elim (prefix_of_mem_textsAt v)
      (prefix_of_mem_textsOfItems vs)

theorem prefix_of_mem_textsOfEntries : ∀ (es : List (Value × Value)) {path : List String}
    {t : List String × String}, t ∈ textsOfEntries path es → path <+: t.1
  | [], _, _, h => by cases h
  | (k, v) :: es, _, _, h => (List.mem_append.mp h).elim
      (fun h => (List.prefix_append _ [k.text]).trans (prefix_of_mem_textsAt v h))
      (prefix_of_mem_textsOfEntries es)

end

/-- Below two keys every text can be expanded. -/
theorem expandable_of_length {path : List String} (h : 2 ≤ path.length) (v : Value) :
    Expandable path v := by
  intro t ht
  have hlength := (prefix_of_mem_textsAt v ht).length_le
  cases hexpand : expandText t.1 t.2 with
  | ok r => exact ⟨r, rfl⟩
  | error f =>
    obtain ⟨-, -, -, hshort⟩ := expandText_eq_error_iff.mp hexpand
    omega

mutual

/-- A value that is expanded has no text that cannot be expanded. -/
theorem expandable_of_expandAt : ∀ {path : List String} {v r : Value},
    expandAt path v = .ok r → Expandable path v
  | _, .str _, r, h => fun _ ht => by
    rw [List.mem_singleton.mp ht]
    exact ⟨r, h⟩
  | _, .seq _, _, h => by
    obtain ⟨_, hitems, -⟩ := map_eq_ok.mp h
    exact expandable_of_expandItems hitems
  | _, .map _, _, h => by
    obtain ⟨_, hentries, -⟩ := map_eq_ok.mp h
    exact expandable_of_expandEntries hentries
  | _, .null, _, _ | _, .bool _, _, _ | _, .int _, _, _ | _, .float _, _, _ | _, .date _, _, _
  | _, .timestamp _, _, _ | _, .bytes _, _, _ | _, .set _, _, _ | _, .pair _ _, _, _ =>
    fun _ ht => by cases ht

theorem expandable_of_expandItems : ∀ {path : List String} {vs rs : List Value},
    expandItems path vs = .ok rs →
      ∀ t ∈ textsOfItems path vs, ∃ r, expandText t.1 t.2 = .ok r
  | _, [], _, _ => fun _ ht => by cases ht
  | _, _ :: _, _, h => by
    obtain ⟨_, _, hfirst, hrest, -⟩ := expandItems_cons_eq_ok.mp h
    rw [textsOfItems]
    exact List.forall_mem_append.mpr
      ⟨expandable_of_expandAt hfirst, expandable_of_expandItems hrest⟩

theorem expandable_of_expandEntries : ∀ {path : List String} {es fs : List (Value × Value)},
    expandEntries path es = .ok fs →
      ∀ t ∈ textsOfEntries path es, ∃ r, expandText t.1 t.2 = .ok r
  | _, [], _, _ => fun _ ht => by cases ht
  | _, (_, _) :: _, _, h => by
    obtain ⟨_, _, hfirst, hrest, -⟩ := expandEntries_cons_eq_ok.mp h
    rw [textsOfEntries]
    exact List.forall_mem_append.mpr
      ⟨expandable_of_expandAt hfirst, expandable_of_expandEntries hrest⟩

end

/-- The entries of a mapping are expanded if every text in them can be. -/
theorem expandEntries_eq_ok_iff {path : List String} {es fs : Fields} :
    expandEntries path es = .ok fs ↔
      Expandable path (.map es) ∧ fs = mapTextsOfEntries replacement path es := by
  constructor
  · intro h
    have hexpandable : Expandable path (.map es) := expandable_of_expandEntries h
    obtain ⟨gs, hgs, heq⟩ := map_eq_ok.mp (expandAt_of_expandable hexpandable)
    obtain rfl := Except.ok.inj (hgs.symm.trans h)
    exact ⟨hexpandable, Value.map.inj heq⟩
  · rintro ⟨hexpandable, rfl⟩
    obtain ⟨gs, hgs, heq⟩ := map_eq_ok.mp (expandAt_of_expandable hexpandable)
    rw [hgs, Value.map.inj heq]

/-- The path of a text decides what stands for it. A document is expanded if every text at the place
of the schema of a component has at least two keys before it, and then each text has become a
reference to a schema, or to the content of a component of the kind that is the second key of its
path, or has stayed as it is. -/
theorem expand_eq_mapTexts (document : Value)
    (hkeys : ∀ t ∈ texts document, ¬ LeadsToSchema t.1 → (∃ kind, LeadsToContent kind t.1) →
      2 ≤ t.1.length) :
    ∃ f, expand document = .ok (mapTexts f [] document) ∧ ∀ path name,
      (path, name) ∈ texts document →
        (LeadsToSchema path → f path name = schemaReference name) ∧
        (¬ LeadsToSchema path → ∀ kind, LeadsToContent kind path → path[1]? = some kind →
          f path name = contentReference kind name) ∧
        (¬ LeadsToSchema path → (∀ kind, ¬ LeadsToContent kind path) →
          f path name = .str name) := by
  -- a text fails to be expanded only where the kind of its component is missing
  have hexpandable : Expandable [] document := fun t ht => by
    by_cases hschema : LeadsToSchema t.1
    · exact ⟨_, expandText_of_schema hschema t.2⟩
    · by_cases hcontent : ∃ kind, LeadsToContent kind t.1
      · have hlength := hkeys t ht hschema hcontent
        obtain ⟨kind, hkind⟩ := hcontent
        exact ⟨_, expandText_of_content hschema hkind (List.getElem?_eq_getElem (by omega)) t.2⟩
      · exact ⟨_, expandText_of_neither hschema (not_exists.mp hcontent) t.2⟩
  refine ⟨replacement, expandAt_of_expandable hexpandable,
    fun path name _ => ⟨fun hschema => ?_, fun hschema kind hcontent hkind => ?_,
      fun hschema hcontent => ?_⟩⟩
  · exact replacement_of_ok (expandText_of_schema hschema name)
  · exact replacement_of_ok (expandText_of_content hschema hcontent hkind name)
  · exact replacement_of_ok (expandText_of_neither hschema hcontent name)

/-- A document with a title, a response in JSON and a schema that is one of two others. -/
def petDocument (title : Value) (variants : List Value) (found : Value) : Value :=
  .map
    [(.str "info", .single "title" title),
     (.str "components", .map
      [(.str "schemas", .single "Pet" (.single "oneOf" (.seq variants))),
       (.str "responses", .single "found"
        (.single "content" (.single "application/json" (.single "schema" found))))])]

/-- Names of schemas below a keyword and in a response, and a text that is no name. -/
theorem expand_eq_mapTexts_pets :
    (∀ t ∈ texts (petDocument (.str "Pets") [.str "Cat", .str "Dog"] (.str "Pet")),
        2 ≤ t.1.length) ∧
      expand (petDocument (.str "Pets") [.str "Cat", .str "Dog"] (.str "Pet")) =
        .ok (petDocument (.str "Pets") [schemaReference "Cat", schemaReference "Dog"]
          (contentReference "responses" "Pet")) := by
  have hkeys : ∀ t ∈ texts (petDocument (.str "Pets") [.str "Cat", .str "Dog"] (.str "Pet")),
      2 ≤ t.1.length := by
    decide
  obtain ⟨f, hexpand, hf⟩ :=
    expand_eq_mapTexts (petDocument (.str "Pets") [.str "Cat", .str "Dog"] (.str "Pet"))
      fun t ht _ _ => hkeys t ht
  have hvariant : LeadsToSchema ["components", "schemas", "Pet", "oneOf"] :=
    (isSchemaPlace_joined_iff _).mp (by decide)
  have hresponse : LeadsToContent "responses"
      ["components", "responses", "found", "content", "application/json", "schema"] :=
    ⟨["components", "responses", "found", "content", "application", "json", "schema"].map
      String.toList, by decide, "found".toList, by decide, contentStart, [], rfl, by decide,
      .inr rfl, .inl rfl⟩
  have hcat := (hf ["components", "schemas", "Pet", "oneOf"] "Cat" (by decide)).1 hvariant
  have hdog := (hf ["components", "schemas", "Pet", "oneOf"] "Dog" (by decide)).1 hvariant
  have hpet := (hf ["components", "responses", "found", "content", "application/json", "schema"]
    "Pet" (by decide)).2.1 (mt (isSchemaPlace_joined_iff _).mpr (by decide)) "responses"
    hresponse rfl
  have htitle := (hf ["info", "title"] "Pets" (by decide)).2.2
    (mt (isSchemaPlace_joined_iff _).mpr (by decide)) fun kind hkind =>
      absurd ((isComponentPlace_joined_iff _).mpr ⟨kind, hkind⟩) (by decide)
  refine ⟨hkeys, hexpand.trans (congrArg Except.ok ?_)⟩
  show petDocument (f ["info", "title"] "Pets")
    [f ["components", "schemas", "Pet", "oneOf"] "Cat",
     f ["components", "schemas", "Pet", "oneOf"] "Dog"]
    (f ["components", "responses", "found", "content", "application/json", "schema"] "Pet") = _
  rw [htitle, hcat, hdog, hpet]

/-- A key that holds slashes is read as several pieces: the one key `components/schemas/Widget` is
no list of keys that names a schema or the content of a component, and its text is expanded. -/
theorem expand_key_with_slashes :
    texts (.single "components/schemas/Widget" (.str "Gadget")) =
        [(["components/schemas/Widget"], "Gadget")] ∧
      ¬ NamesSchema (["components/schemas/Widget"].map String.toList) ∧
      (∀ kind, ∀ name ≠ [], ¬ NamesContent ["application/json".toList] kind name
        (["components/schemas/Widget"].map String.toList)) ∧
      expand (.single "components/schemas/Widget" (.str "Gadget")) =
        .ok (.single "components/schemas/Widget" (.reference "#/components/schemas/Gadget")) ∧
      expand (.single "components/schemas/Widget" (.str "Gadget")) ≠
        .ok (.single "components/schemas/Widget" (.str "Gadget")) := by
  refine ⟨rfl, fun hnames => ?_, fun kind name _ hnames => ?_, rfl, fun h => ?_⟩
  · obtain ⟨before, container, name, items, composition, hps, -⟩ := hnames
    have hlength := congrArg List.length hps
    simp at hlength
    omega
  · obtain ⟨content, composition, hps, -⟩ := hnames
    have hlength := congrArg List.length hps
    simp at hlength
  · exact absurd (Except.ok.inj h) (by decide)

end ApiTree.Reference
