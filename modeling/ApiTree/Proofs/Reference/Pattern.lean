import ApiTree.Proofs.Reference.Place

/-!
# Places as patterns

The places of shorthand names can also be given by two patterns that are searched in the text of a
path. A pattern is found in a text if it matches somewhere in it, whichever way its optional parts
and its names are read. Each of the two patterns is found in exactly the texts of a grammar, and these
are the texts that the tests on pieces accept (`found_iff_grammar`): a container and a name, and what
may follow them up to the end of the text, a newline at the very end not counted.
-/

set_option autoImplicit false

namespace ApiTree.Reference

/-! ## The grammar -/

/-- Some text without a slash. -/
def IsSegment (name : String) : Prop := name ≠ "" ∧ '/' ∉ name.toList

/-- Nothing, or a slash and a keyword that composes schemas. -/
def IsComposition (s : String) : Prop :=
  s = "" ∨ ∃ keyword ∈ ["oneOf", "allOf", "anyOf", "not"], s = "/" ++ keyword

/-- The text of a path to a named schema. -/
def IsSchemaText (t : String) : Prop :=
  ∃ name items composition, IsSegment name ∧ (items = "" ∨ items = "/items") ∧
    IsComposition composition ∧
      ((∃ u, t = u ++ "/properties/" ++ name ++ items ++ composition) ∨
        t = "components/schemas/" ++ name ++ items ++ composition)

/-- The text of a path to the schema of a component with content. -/
def IsContentText (t : String) : Prop :=
  ∃ kind name content composition, kind ∈ ["requestBodies", "responses"] ∧ IsSegment name ∧
    (content = "" ∨ content = "/content/application/json") ∧ IsComposition composition ∧
      t = "components/" ++ kind ++ "/" ++ name ++ content ++ "/schema" ++ composition

/-- The text has the form, or it has the form but for a newline at its end. -/
def HasForm (form : String → Prop) (t : String) : Prop := form t ∨ ∃ r, t = r ++ "\n" ∧ form r

/-! ## Patterns -/

/-- A pattern of texts. -/
inductive Expression where
  | word (s : String)
  /-- One character or more, none of which is a slash. -/
  | segment
  /-- The start of the text. -/
  | start
  /-- The end of the text, or the place before a newline that ends it. -/
  | finish
  | chain (first second : Expression)
  | either (first second : Expression)
  | optional (e : Expression)
  deriving DecidableEq, Repr

/-- The expression matches a part of a text, with the given texts before and after the part. -/
def Matches : Expression → (before part after : String) → Prop
  | .word s, _, part, _ => part = s
  | .segment, _, part, _ => IsSegment part
  | .start, before, part, _ => before = "" ∧ part = ""
  | .finish, _, part, after => part = "" ∧ (after = "" ∨ after = "\n")
  | .chain a b, before, part, after =>
    ∃ x y, part = x ++ y ∧ Matches a before x (y ++ after) ∧ Matches b (before ++ x) y after
  | .either a b, before, part, after => Matches a before part after ∨ Matches b before part after
  | .optional e, before, part, after => part = "" ∨ Matches e before part after

/-- The expression matches a part of the text. -/
def Found (e : Expression) (t : String) : Prop :=
  ∃ before part after, t = before ++ part ++ after ∧ Matches e before part after

/-- The expressions one after another. -/
def sequence (es : List Expression) : Expression := es.foldr .chain (.word "")

/-- A keyword that composes schemas may stand here, after a slash. -/
def mayCompose : Expression :=
  .optional (.chain (.word "/")
    (.either (.word "oneOf") (.either (.word "allOf") (.either (.word "anyOf") (.word "not")))))

/-- A container of schemas, a name and what may follow it. -/
def nameInContainer : Expression :=
  sequence [.either (.chain .start (.word "components/schemas")) (.word "/properties"), .word "/",
    .segment, .optional (.word "/items"), mayCompose, .finish]

/-- The pattern of paths to named schemas. A keyword may stand before the container. -/
def schemaPattern : Expression := .chain mayCompose nameInContainer

/-- The pattern of paths to schemas of components with content. -/
def contentPattern : Expression :=
  sequence [.start, .word "components", .word "/",
    .either (.word "requestBodies") (.word "responses"), .word "/", .segment,
    .optional (.word "/content/application/json"), .word "/schema", mayCompose, .finish]

/-! ## What the patterns match -/

section

variable {before part after : String}

theorem matches_cons {e : Expression} {es : List Expression} :
    Matches (sequence (e :: es)) before part after ↔
      ∃ x y, part = x ++ y ∧ Matches e before x (y ++ after) ∧
        Matches (sequence es) (before ++ x) y after := Iff.rfl

theorem matches_word_cons {s : String} {es : List Expression} :
    Matches (sequence (.word s :: es)) before part after ↔
      ∃ y, part = s ++ y ∧ Matches (sequence es) (before ++ s) y after := by
  rw [matches_cons]
  constructor
  · rintro ⟨_, y, rfl, rfl, hrest⟩
    exact ⟨y, rfl, hrest⟩
  · rintro ⟨y, rfl, hrest⟩
    exact ⟨s, y, rfl, rfl, hrest⟩

theorem matches_start_cons {es : List Expression} :
    Matches (sequence (.start :: es)) before part after ↔
      before = "" ∧ Matches (sequence es) before part after := by
  rw [matches_cons]
  constructor
  · rintro ⟨_, y, rfl, ⟨rfl, rfl⟩, hrest⟩
    exact ⟨rfl, by simpa using hrest⟩
  · rintro ⟨rfl, hrest⟩
    exact ⟨"", part, by simp, ⟨rfl, rfl⟩, by simpa using hrest⟩

theorem matches_finish :
    Matches (sequence [.finish]) before part after ↔
      part = "" ∧ (after = "" ∨ after = "\n") := by
  rw [matches_cons]
  constructor
  · rintro ⟨_, _, rfl, ⟨rfl, hafter⟩, rfl⟩
    exact ⟨by simp, by simpa using hafter⟩
  · rintro ⟨rfl, hafter⟩
    exact ⟨"", "", by simp, ⟨rfl, by simpa using hafter⟩, rfl⟩

theorem matches_mayCompose : Matches mayCompose before part after ↔ IsComposition part := by
  simp only [mayCompose, Matches, IsComposition, List.mem_cons, List.not_mem_nil, or_false]
  apply or_congr_right
  constructor
  · rintro ⟨_, keyword, rfl, rfl, hkeyword⟩
    exact ⟨keyword, hkeyword, rfl⟩
  · rintro ⟨keyword, hkeyword, rfl⟩
    exact ⟨"/", keyword, rfl, rfl, hkeyword⟩

end

/-- A form may be followed by nothing but a newline. -/
theorem hasForm_iff {form : String → Prop} {t : String} :
    HasForm form t ↔ ∃ r after, t = r ++ after ∧ form r ∧ (after = "" ∨ after = "\n") := by
  constructor
  · rintro (h | ⟨r, rfl, h⟩)
    · exact ⟨t, "", by simp, h, .inl rfl⟩
    · exact ⟨r, "\n", rfl, h, .inr rfl⟩
  · rintro ⟨r, after, rfl, h, rfl | rfl⟩
    · rw [String.append_empty]
      exact .inl h
    · exact .inr ⟨r, rfl, h⟩

/-- The container is matched at the start of the text or anywhere, and then what follows it. -/
theorem matches_nameInContainer {before part after : String} :
    Matches nameInContainer before part after ↔
      ∃ container name items composition, part = container ++ "/" ++ name ++ items ++ composition ∧
        (before = "" ∧ container = "components/schemas" ∨ container = "/properties") ∧
        IsSegment name ∧ (items = "" ∨ items = "/items") ∧ IsComposition composition ∧
        (after = "" ∨ after = "\n") := by
  rw [nameInContainer, matches_cons]
  simp only [↓matches_word_cons, ↓matches_finish, matches_cons, matches_mayCompose, Matches]
  constructor
  · rintro ⟨container, _, rfl, hcontainer, _, rfl, name, _, rfl, hname, items, _, rfl, hitems,
      composition, _, rfl, hcomposition, rfl, hafter⟩
    refine ⟨container, name, items, composition, ?_, ?_, hname, hitems, hcomposition, hafter⟩
    · simp [String.append_assoc]
    · refine hcontainer.imp_left ?_
      rintro ⟨_, _, rfl, ⟨hbefore, rfl⟩, rfl⟩
      exact ⟨hbefore, String.empty_append⟩
  · rintro ⟨container, name, items, composition, rfl, hcontainer, hname, hitems, hcomposition,
      hafter⟩
    refine ⟨container, "/" ++ (name ++ (items ++ composition)), ?_, ?_, _, rfl, name, _, rfl, hname,
      items, _, rfl, hitems, composition, "", by simp, hcomposition, rfl, hafter⟩
    · simp [String.append_assoc]
    · refine hcontainer.imp_left ?_
      rintro ⟨hbefore, rfl⟩
      exact ⟨"", _, by simp, ⟨hbefore, rfl⟩, rfl⟩

theorem found_nameInContainer (t : String) :
    Found nameInContainer t ↔ HasForm IsSchemaText t := by
  rw [hasForm_iff]
  constructor
  · rintro ⟨before, part, after, rfl, hmatches⟩
    obtain ⟨container, name, items, composition, rfl, hcontainer, hname, hitems, hcomposition,
      hafter⟩ := matches_nameInContainer.mp hmatches
    refine ⟨_, after, rfl, ⟨name, items, composition, hname, hitems, hcomposition, ?_⟩, hafter⟩
    rcases hcontainer with ⟨rfl, rfl⟩ | rfl
    · apply Or.inr
      simp [← String.append_assoc]
    · -- the text before the container is the beginning of the form
      refine .inl ⟨before, ?_⟩
      simp [← String.append_assoc]
  · rintro ⟨r, after, rfl, ⟨name, items, composition, hname, hitems, hcomposition, hr⟩, hafter⟩
    rcases hr with ⟨u, rfl⟩ | rfl
    · refine ⟨u, _, after, ?_, matches_nameInContainer.mpr
        ⟨"/properties", name, items, composition, rfl, .inr rfl, hname, hitems, hcomposition,
          hafter⟩⟩
      simp [← String.append_assoc]
    · refine ⟨"", _, after, ?_, matches_nameInContainer.mpr
        ⟨"components/schemas", name, items, composition, rfl, .inl ⟨rfl, rfl⟩, hname, hitems,
          hcomposition, hafter⟩⟩
      simp [← String.append_assoc]

/-- The keyword that may stand before the container changes nothing. -/
theorem found_schemaPattern_iff (t : String) :
    Found schemaPattern t ↔ Found nameInContainer t := by
  constructor
  · rintro ⟨before, _, after, rfl, keyword, part, rfl, -, hpart⟩
    -- what the keyword matches may as well stand before the match
    exact ⟨before ++ keyword, part, after, by simp [String.append_assoc], hpart⟩
  · rintro ⟨before, part, after, rfl, hpart⟩
    refine ⟨before, part, after, rfl, "", part, by simp, ?_, by simpa using hpart⟩
    exact matches_mayCompose.mpr (.inl rfl)

theorem found_contentPattern (t : String) :
    Found contentPattern t ↔ HasForm IsContentText t := by
  rw [hasForm_iff, contentPattern]
  simp only [Found, ↓matches_start_cons, ↓matches_word_cons, ↓matches_finish, matches_cons,
    matches_mayCompose, Matches]
  constructor
  · rintro ⟨_, _, after, rfl, rfl, _, rfl, _, rfl, kind, _, rfl, hkind, _, rfl, name, _, rfl, hname,
      content, _, rfl, hcontent, _, rfl, composition, _, rfl, hcomposition, rfl, hafter⟩
    refine ⟨_, after, rfl, ⟨kind, name, content, composition, ?_, hname, hcontent, hcomposition,
      ?_⟩, hafter⟩
    · simpa using hkind
    · simp [← String.append_assoc]
  · rintro ⟨r, after, rfl, ⟨kind, name, content, composition, hkind, hname, hcontent, hcomposition,
      rfl⟩, hafter⟩
    refine ⟨"", "components" ++ ("/" ++ (kind ++ ("/" ++ (name ++ (content ++
      ("/schema" ++ composition)))))), after, ?_, rfl, _, rfl, _, rfl, kind, _, rfl, ?_, _, rfl, name,
      _, rfl, hname, content, _, rfl, hcontent, _, rfl, composition, "", by simp, hcomposition, rfl,
      hafter⟩
    · simp [← String.append_assoc]
    · simpa using hkind

/-! ## Texts and their pieces -/

/-- The pieces with a slash before each of them. -/
def slashed (ps : List Piece) : List Char := ps.flatMap ('/' :: ·)

theorem noSlash_of_mem_pieces {cs : List Char} {p : Piece} (h : p ∈ pieces cs) : '/' ∉ p := by
  intro hslash
  have hno := Text.forall_not_of_mem_splitWhere h '/' hslash
  simp at hno

theorem pieces_append_slashed (cs : List Char) {ps : List Piece} (h : ∀ p ∈ ps, '/' ∉ p) :
    pieces (cs ++ slashed ps) = pieces cs ++ ps := by
  induction ps generalizing cs with
  | nil => simp [slashed]
  | cons p ps ih =>
    rw [List.forall_mem_cons] at h
    have hfirst : cs ++ slashed (p :: ps) = cs ++ '/' :: p ++ slashed ps := by
      simp [slashed]
    rw [hfirst, ih _ h.2, pieces_concat cs (by simpa using h.1)]
    simp

/-- The last pieces of a text stand at its end, each after a slash. -/
theorem exists_of_pieces_eq_append {cs : List Char} {before ps : List Piece} (hbefore : before ≠ [])
    (h : pieces cs = before ++ ps) : ∃ u, pieces u = before ∧ cs = u ++ slashed ps := by
  induction ps using List.reverseRecOn generalizing cs with
  | nil => exact ⟨cs, by simpa using h, by simp [slashed]⟩
  | append_singleton ps p ih =>
    rw [← List.append_assoc] at h
    obtain ⟨ys, s, hs, rfl, hys⟩ := Text.exists_of_splitWhere_concat (by simp [hbefore]) h
    obtain rfl : s = '/' := by simpa using hs
    obtain ⟨u, hu, rfl⟩ := ih hys
    exact ⟨u, hu, by simp [slashed]⟩

theorem isComposition_iff (s : String) :
    IsComposition s ↔ ∃ ps, MayCompose ps ∧ s.toList = slashed ps := by
  constructor
  · rintro (rfl | ⟨keyword, hkeyword, rfl⟩)
    · exact ⟨[], .inl rfl, rfl⟩
    · refine ⟨[keyword.toList], .inr ⟨_, List.mem_map_of_mem hkeyword, rfl⟩, ?_⟩
      simp [slashed]
  · rintro ⟨ps, rfl | ⟨keyword, hkeyword, rfl⟩, hs⟩
    · exact .inl (String.toList_inj.mp hs)
    · obtain ⟨word, hword, rfl⟩ := List.mem_map.mp hkeyword
      refine .inr ⟨word, hword, String.toList_inj.mp ?_⟩
      simpa [slashed] using hs

theorem MayCompose.noSlash {ps : List Piece} (h : MayCompose ps) : ∀ p ∈ ps, '/' ∉ p := by
  rcases h with rfl | ⟨keyword, hkeyword, rfl⟩
  · simp
  · rw [List.forall_mem_singleton]
    revert keyword
    decide

/-- A part of a path that may be left out, with a slash before each of its pieces. -/
theorem eq_empty_or_iff (s part : String) {ps : List Piece} (h : part.toList = slashed ps) :
    (s = "" ∨ s = part) ↔ ∃ qs, (qs = [] ∨ qs = ps) ∧ s.toList = slashed qs := by
  constructor
  · rintro (rfl | rfl)
    · exact ⟨[], .inl rfl, rfl⟩
    · exact ⟨ps, .inr rfl, h⟩
  · rintro ⟨qs, rfl | rfl, hs⟩
    · exact .inl (String.toList_inj.mp hs)
    · exact .inr (String.toList_inj.mp (hs.trans h.symm))

/-- The text of a path to a named schema is told by the pieces at its end. -/
theorem isSchemaText_iff (t : String) :
    IsSchemaText t ↔ ∃ name items composition, (name ≠ [] ∧ '/' ∉ name) ∧
      (items = [] ∨ items = ["items".toList]) ∧ MayCompose composition ∧
        ((∃ u, t.toList = u ++ slashed ("properties".toList :: name :: (items ++ composition))) ∨
          t.toList = "components".toList ++
            slashed ("schemas".toList :: name :: (items ++ composition))) := by
  have hitems (s : String) : (s = "" ∨ s = "/items") ↔
      ∃ qs, (qs = [] ∨ qs = ["items".toList]) ∧ s.toList = slashed qs :=
    eq_empty_or_iff s "/items" rfl
  constructor
  · rintro ⟨name, items, composition, ⟨hname, hslash⟩, hmay, hcomposition, ht⟩
    obtain ⟨items', hitems', htext⟩ := (hitems items).mp hmay
    obtain ⟨composition', hcomposition', htext'⟩ := (isComposition_iff composition).mp hcomposition
    refine ⟨name.toList, items', composition', ⟨by simpa using hname, hslash⟩, hitems',
      hcomposition', ?_⟩
    rcases ht with ⟨u, rfl⟩ | rfl
    · refine .inl ⟨u.toList, ?_⟩
      simp [slashed, htext, htext']
    · apply Or.inr
      simp [slashed, htext, htext']
  · rintro ⟨name, items, composition, ⟨hname, hslash⟩, hmay, hcomposition, ht⟩
    refine ⟨String.ofList name, String.ofList (slashed items), String.ofList (slashed composition),
      ⟨by simpa using hname, by simpa using hslash⟩, ?_, ?_, ?_⟩
    · exact (hitems _).mpr ⟨items, hmay, String.toList_ofList⟩
    · exact (isComposition_iff _).mpr ⟨composition, hcomposition, String.toList_ofList⟩
    · simp only [← String.toList_inj]
      rcases ht with ⟨u, hu⟩ | ht
      · refine .inl ⟨String.ofList u, ?_⟩
        simp [hu, slashed]
      · apply Or.inr
        simp [ht, slashed]

/-- The pieces of a text name a schema exactly if the text is the path to one. -/
theorem namesSchema_pieces_iff (t : String) : NamesSchema (pieces t.toList) ↔ IsSchemaText t := by
  rw [isSchemaText_iff]
  constructor
  · rintro ⟨before, container, name, items, composition, hpieces, hname, hitems, hcomposition,
      hcontainer⟩
    have hmem : name ∈ pieces t.toList := by simp [hpieces]
    have hslash : '/' ∉ name := noSlash_of_mem_pieces hmem
    refine ⟨name, items, composition, ⟨hname, hslash⟩, hitems, hcomposition, ?_⟩
    rcases hcontainer with ⟨rfl, hbefore⟩ | hschemas
    · have hsplit : pieces t.toList =
          before ++ "properties".toList :: name :: (items ++ composition) := by
        simp [hpieces]
      obtain ⟨u, -, hu⟩ := exists_of_pieces_eq_append hbefore hsplit
      exact .inl ⟨u, hu⟩
    · have hstart : pieces t.toList = ["components".toList] ++
          "schemas".toList :: name :: (items ++ composition) := by
        have hsplit : pieces t.toList = (before ++ [container]) ++ name :: (items ++ composition) := by
          simp [hpieces]
        rw [hsplit, hschemas]
        rfl
      obtain ⟨u, hu, ht⟩ := exists_of_pieces_eq_append (List.cons_ne_nil _ _) hstart
      obtain rfl := Text.eq_of_splitWhere_singleton hu
      exact .inr ht
  · rintro ⟨name, items, composition, ⟨hname, hslash⟩, hitems, hcomposition, ht⟩
    have hall {container : Piece} (hcontainer : '/' ∉ container) :
        ∀ p ∈ container :: name :: (items ++ composition), '/' ∉ p := by
      have hmay : ∀ p ∈ items, '/' ∉ p := by
        rcases hitems with rfl | rfl <;> decide
      simp only [List.forall_mem_cons, List.forall_mem_append]
      exact ⟨hcontainer, hslash, hmay, hcomposition.noSlash⟩
    rcases ht with ⟨u, hu⟩ | ht
    · refine ⟨pieces u, "properties".toList, name, items, composition, ?_, hname, hitems,
        hcomposition, .inl ⟨rfl, Text.splitWhere_ne_nil _ _⟩⟩
      rw [hu, pieces_append_slashed u (hall (by decide))]
      simp
    · refine ⟨["components".toList], "schemas".toList, name, items, composition, ?_, hname, hitems,
        hcomposition, .inr rfl⟩
      rw [ht, pieces_append_slashed _ (hall (by decide))]
      rfl

/-- The pieces of a text name the schema of a component exactly if the text is the path to one. -/
theorem namesContent_pieces_iff (t : String) :
    (∃ kind, ∃ name ≠ [], NamesContent jsonPieces kind name (pieces t.toList)) ↔
      IsContentText t := by
  have hcontents (s : String) : (s = "" ∨ s = "/content/application/json") ↔
      ∃ qs, (qs = [] ∨ qs = "content".toList :: jsonPieces) ∧ s.toList = slashed qs :=
    eq_empty_or_iff s "/content/application/json" rfl
  constructor
  · rintro ⟨kind, name, hname, content, composition, hpieces, hkind, hcontent, hcomposition⟩
    have hmem : name ∈ pieces t.toList := by simp [hpieces]
    have hslash : '/' ∉ name := noSlash_of_mem_pieces hmem
    have hstart : pieces t.toList = ["components".toList] ++
        kind.toList :: name :: (content ++ "schema".toList :: composition) := by
      simp [hpieces]
    obtain ⟨u, hu, ht⟩ := exists_of_pieces_eq_append (List.cons_ne_nil _ _) hstart
    obtain rfl := Text.eq_of_splitWhere_singleton hu
    refine ⟨kind, String.ofList name, String.ofList (slashed content),
      String.ofList (slashed composition), ?_, ⟨by simpa using hname, by simpa using hslash⟩,
      (hcontents _).mpr ⟨content, hcontent, String.toList_ofList⟩,
      (isComposition_iff _).mpr ⟨composition, hcomposition, String.toList_ofList⟩, ?_⟩
    · obtain ⟨word, hword, hwords⟩ := List.mem_map.mp hkind
      rwa [← String.toList_inj.mp hwords]
    · rw [← String.toList_inj, ht]
      simp [slashed]
  · rintro ⟨kind, name, content, composition, hkind, ⟨hname, hslash⟩, hmay, hcomposition, rfl⟩
    obtain ⟨content', hcontent', htext⟩ := (hcontents content).mp hmay
    obtain ⟨composition', hcomposition', htext'⟩ := (isComposition_iff composition).mp hcomposition
    refine ⟨kind, name.toList, by simpa using hname, content', composition', ?_,
      List.mem_map_of_mem hkind, hcontent', hcomposition'⟩
    have hkind' : '/' ∉ kind.toList := by
      revert kind
      decide
    have hnone : ∀ p ∈ content', '/' ∉ p := by
      rcases hcontent' with rfl | rfl <;> decide
    have hall : ∀ p ∈ kind.toList :: name.toList :: (content' ++ "schema".toList :: composition'),
        '/' ∉ p := by
      simp only [List.forall_mem_cons, List.forall_mem_append]
      exact ⟨hkind', hslash, hnone, by decide, hcomposition'.noSlash⟩
    have ht : ("components/" ++ kind ++ "/" ++ name ++ content ++ "/schema" ++ composition).toList =
        "components".toList ++
          slashed (kind.toList :: name.toList :: (content' ++ "schema".toList :: composition')) := by
      simp [slashed, htext, htext']
    have hfirst : pieces "components".toList = ["components".toList] := rfl
    rw [ht, pieces_append_slashed _ hall, hfirst]
    simp

/-! ## Places -/

/-- A test of one of the readings of a text decides its form, up to a newline at its end. -/
theorem any_readings_iff {test : List Char → Bool} {form : String → Prop}
    (h : ∀ t : String, test t.toList = true ↔ form t) (t : String) :
    (readings t.toList).any test = true ↔ HasForm form t := by
  rw [readings, HasForm]
  split
  · next hlast =>
    obtain ⟨cs, hcs⟩ := List.getLast?_eq_some_iff.mp hlast
    obtain rfl : t = String.ofList cs ++ "\n" := by
      rw [← String.toList_inj]
      simp [hcs]
    have hdrop : (String.ofList cs ++ "\n").toList.dropLast = (String.ofList cs).toList := by
      simp
    rw [hdrop, List.any_cons, List.any_cons, List.any_nil, Bool.or_false, Bool.or_eq_true, h, h]
    apply or_congr_right
    constructor
    · intro hform
      exact ⟨_, rfl, hform⟩
    · rintro ⟨r, hr, hform⟩
      obtain rfl : String.ofList cs = r := by
        rw [← String.toList_inj] at hr ⊢
        simpa using hr
      exact hform
  · next hlast =>
    rw [List.any_cons, List.any_nil, Bool.or_false, h]
    refine (or_iff_left ?_).symm
    rintro ⟨r, rfl, -⟩
    exact hlast (by simp)

/-- A pattern is found in the texts of its grammar and in no others, and so decide the tests on
pieces. A keyword before the container of a named schema does not matter. -/
theorem found_iff_grammar (t : String) :
    (Found schemaPattern t ↔ HasForm IsSchemaText t) ∧
      (isSchemaPlace t = true ↔ HasForm IsSchemaText t) ∧
      (Found schemaPattern t ↔ Found nameInContainer t) ∧
      (Found contentPattern t ↔ HasForm IsContentText t) ∧
      (isComponentPlace t = true ↔ HasForm IsContentText t) := by
  have hlead := found_schemaPattern_iff t
  refine ⟨hlead.trans (found_nameInContainer t), ?_, hlead, found_contentPattern t, ?_⟩
  · apply any_readings_iff
    intro r
    exact (leadToSchema_reverse_iff _).trans (namesSchema_pieces_iff r)
  · apply any_readings_iff
    intro r
    exact (leadToComponent_iff _).trans (namesContent_pieces_iff r)

end ApiTree.Reference
