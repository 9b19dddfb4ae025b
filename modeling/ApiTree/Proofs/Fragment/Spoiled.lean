import ApiTree.Proofs.Fragment.Place
import ApiTree.Proofs.Fragment.Transform
import ApiTree.Proofs.Reference.Merge

/-!
# Fragments that cannot become a part of the document

A file that holds a mapping can still be spoiled. In a file of components an entry with a flat
`schema` or `examples` may hold content that is no mapping, so that nothing can be nested in it. In a
file that is put into the document as it is, a single key may spell the place of the schema of a
component, so that there is no second key to tell the kind of the component. Nothing else prevents
that a fragment becomes a part of the document (`transform_eq_error_iff`).
-/

set_option autoImplicit false

namespace ApiTree

open Value Reference

/-! ## Names that cannot be expanded -/

namespace Reference

theorem expandable_map_iff {path : List String} {entries : Fields} :
    Expandable path (.map entries) ↔ ∀ e ∈ entries, Expandable (path ++ [e.1.text]) e.2 := by
  constructor
  · exact fun h e he t ht => h t (mem_textsOfEntries.mpr ⟨e, he, ht⟩)
  · intro h t ht
    obtain ⟨e, he, hte⟩ := mem_textsOfEntries.mp ht
    exact h e he t hte

theorem expandable_single {path : List String} {key : String} {v : Value}
    (h : Expandable (path ++ [key]) v) : Expandable path (.single key v) := by
  refine expandable_map_iff.mpr fun e he => ?_
  rw [List.mem_singleton.mp he]
  exact h

/-- The key of the entry spells the place of the schema of a component by itself, and the entry holds
a text at this place, bare or in lists. -/
def SpellsPlace (e : Value × Value) : Prop :=
  isSchemaPlace e.1.text = false ∧ isComponentPlace e.1.text = true ∧
    ∃ name, ([e.1.text], name) ∈ textsAt [e.1.text] e.2

/-- A key that spells a place is no trouble if a mapping stands there. -/
theorem not_spellsPlace_map (k : Value) (entries : Fields) : ¬ SpellsPlace (k, .map entries) := by
  rintro ⟨-, -, name, ht⟩
  obtain ⟨e, -, ht⟩ := mem_textsOfEntries.mp ht
  have hlength := (prefix_of_mem_textsAt e.2 ht).length_le
  simp at hlength

theorem joined_singleton (key : String) : joined [key] = key := by
  simp [joined]

/-- At the top of a document only an entry whose key spells a place cannot be expanded. -/
theorem expandable_top_iff {entries : Fields} :
    Expandable [] (.map entries) ↔ ∀ e ∈ entries, ¬ SpellsPlace e := by
  rw [expandable_map_iff]
  refine forall₂_congr fun e _ => ?_
  rw [List.nil_append]
  constructor
  · rintro h ⟨hschema, hplace, name, ht⟩
    obtain ⟨r, hr⟩ := h _ ht
    rw [← joined_singleton e.1.text] at hschema hplace
    rw [expandText_eq_error_iff.mpr ⟨rfl, hschema, hplace, le_rfl⟩] at hr
    cases hr
  · intro h t ht
    cases hexpand : expandText t.1 t.2 with
    | ok r => exact ⟨r, rfl⟩
    | error f =>
      obtain ⟨-, hschema, hplace, hlength⟩ := expandText_eq_error_iff.mp hexpand
      -- the text stands at the key itself
      have hpath : [e.1.text] = t.1 :=
        (prefix_of_mem_textsAt e.2 ht).eq_of_length_le hlength
      rw [← hpath, joined_singleton] at hschema hplace
      exact absurd ⟨hschema, hplace, t.2, hpath ▸ ht⟩ h

mutual

theorem eq_of_expandAt_error : ∀ {path : List String} {v : Value} {f : Failure},
    expandAt path v = .error f → f = .outOfRange
  | _, .str _, _, h => (expandText_eq_error_iff.mp h).1
  | _, .seq _, _, h => by
    rw [expandAt, map_eq_error] at h
    exact eq_of_expandItems_error h
  | _, .map _, _, h => by
    rw [expandAt, map_eq_error] at h
    exact eq_of_expandEntries_error h
  | _, .null, _, h | _, .bool _, _, h | _, .int _, _, h | _, .float _, _, h | _, .date _, _, h
  | _, .timestamp _, _, h | _, .bytes _, _, h | _, .set _, _, h | _, .pair _ _, _, h => by cases h

theorem eq_of_expandItems_error : ∀ {path : List String} {vs : List Value} {f : Failure},
    expandItems path vs = .error f → f = .outOfRange
  | _, [], _, h => by cases h
  | path, v :: vs, f, h => by
    rw [expandItems, bind_eq_error] at h
    rcases h with h | ⟨_, -, h⟩
    · exact eq_of_expandAt_error h
    · rw [bind_eq_error] at h
      rcases h with h | ⟨_, -, h⟩
      · exact eq_of_expandItems_error h
      · cases h

theorem eq_of_expandEntries_error : ∀ {path : List String} {es : List (Value × Value)}
    {f : Failure}, expandEntries path es = .error f → f = .outOfRange
  | _, [], _, h => by cases h
  | path, (k, v) :: es, f, h => by
    rw [expandEntries, bind_eq_error] at h
    rcases h with h | ⟨_, -, h⟩
    · exact eq_of_expandAt_error h
    · rw [bind_eq_error] at h
      rcases h with h | ⟨_, -, h⟩
      · exact eq_of_expandEntries_error h
      · cases h

end

/-- Entries that cannot be expanded fail in one way. -/
theorem expandEntries_eq_error_iff {path : List String} {es : Fields} {f : Failure} :
    expandEntries path es = .error f ↔ f = .outOfRange ∧ ¬ Expandable path (.map es) := by
  constructor
  · intro h
    refine ⟨eq_of_expandEntries_error h, fun hexpandable => ?_⟩
    rw [expandEntries_eq_ok_iff.mpr ⟨hexpandable, rfl⟩] at h
    cases h
  · rintro ⟨rfl, hexpandable⟩
    cases h : expandEntries path es with
    | ok fs => exact absurd (expandEntries_eq_ok_iff.mp h).1 hexpandable
    | error f => rw [eq_of_expandEntries_error h]

/-- Mappings that agree expand alike if both can be expanded or neither can. -/
theorem alike_expandEntries {entries others : Fields} (h : Agree (.map entries) (.map others))
    {path : List String} (hiff : Expandable path (.map entries) ↔ Expandable path (.map others)) :
    Alike (fun a b => Agree (.map a) (.map b)) (expandEntries path entries)
      (expandEntries path others) := by
  by_cases hexpandable : Expandable path (.map entries)
  · rw [expandEntries_eq_ok_iff.mpr ⟨hexpandable, rfl⟩,
      expandEntries_eq_ok_iff.mpr ⟨hiff.mp hexpandable, rfl⟩]
    exact .ok (agree_mapTexts replacement h path)
  · rw [expandEntries_eq_error_iff.mpr ⟨rfl, hexpandable⟩,
      expandEntries_eq_error_iff.mpr ⟨rfl, mt hiff.mpr hexpandable⟩]
    exact .error _

end Reference

/-! ## Content that nothing can be nested in -/

namespace Fragment

/-- The entry has a flat schema or flat examples beside content that holds something and is no
mapping. -/
def Crowded (entry : Fields) : Prop :=
  (Fields.has "schema" entry = true ∨ Fields.has "examples" entry = true) ∧
    (Fields.getD "content" entry).isTruthy = true ∧ (Fields.getD "content" entry).isMap = false

instance (entry : Fields) : Decidable (Crowded entry) := inferInstanceAs (Decidable (_ ∧ _))

theorem isEmpty_pick_iff {entry : Fields} :
    (Fields.pick ["schema", "examples"] entry).isEmpty = true ↔
      ¬ (Fields.has "schema" entry = true ∨ Fields.has "examples" entry = true) := by
  simp only [Fields.pick, Fields.has, Entries.pick, Entries.has, List.isEmpty_iff,
    List.filterMap_eq_nil_iff, List.map_cons, List.map_nil, List.forall_mem_cons,
    Option.map_eq_none_iff, not_or, Bool.not_eq_true, Option.isSome_eq_false_iff,
    Option.isNone_iff_eq_none]
  simp

theorem getD_content_rest (entry : Fields) :
    Fields.getD "content" (Fields.erase "examples" (Fields.erase "schema" entry)) =
      Fields.getD "content" entry := by
  simp only [Fields.getD, Fields.get?, Fields.erase]
  rw [Entries.get?_erase_of_ne (by decide), Entries.get?_erase_of_ne (by decide)]

theorem nestContent_eq_error_iff {entry : Fields} {f : Failure} :
    nestContent entry = .error f ↔ f = .noMember ∧ Crowded entry := by
  rw [nestContent, Crowded]
  by_cases hflat : (Fields.pick ["schema", "examples"] entry).isEmpty = true
  · rw [if_pos hflat]
    simp [isEmpty_pick_iff.mp hflat]
  · rw [if_neg hflat]
    rw [isEmpty_pick_iff, not_not] at hflat
    simp only [getD_content_rest, hflat, true_and]
    cases htruthy : (Fields.getD "content" entry).isTruthy with
    | false => simp
    | true =>
      cases Fields.getD "content" entry <;> simp [isMap, eq_comm]

theorem nestEntry_eq_error_iff {e : Value × Value} {f : Failure} :
    nestEntry e = .error f ↔ f = .noMember ∧ ∃ entry, e.2 = .map entry ∧ Crowded entry := by
  obtain ⟨k, v⟩ := e
  cases v with
  | map entry =>
    have hnest : nestEntry (k, .map entry) = .error f ↔ nestContent entry = .error f := by
      refine bind_eq_error.trans (or_iff_left ?_)
      rintro ⟨_, -, h⟩
      cases h
    rw [hnest, nestContent_eq_error_iff]
    simp
  | _ => simp [nestEntry]

theorem withContent_eq_error_iff {f : Fragment} {failure : Failure} :
    withContent f = .error failure ↔ failure = .noMember ∧ f.kind = .component ∧
      ∃ e ∈ f.content, ∃ entry, e.2 = .map entry ∧ Crowded entry := by
  rw [withContent_eq]
  by_cases hkind : f.kind = .component
  · rw [if_pos hkind]
    simp only [hkind, true_and]
    have hfails {failure : Failure} (h : f.content.mapM nestEntry = .error failure) :
        failure = .noMember ∧ ∃ e ∈ f.content, ∃ entry, e.2 = .map entry ∧ Crowded entry := by
      obtain ⟨e, he, hfail⟩ := exists_of_mapM_eq_error h
      obtain ⟨hfailure, hcrowded⟩ := nestEntry_eq_error_iff.mp hfail
      exact ⟨hfailure, e, he, hcrowded⟩
    refine ⟨hfails, ?_⟩
    rintro ⟨rfl, e, he, hcrowded⟩
    cases hresult : f.content.mapM nestEntry with
    | error failure => rw [(hfails hresult).1]
    | ok data =>
      obtain ⟨e', he'⟩ := succeeds_mapM.mp ⟨data, hresult⟩ e he
      rw [nestEntry_eq_error_iff.mpr ⟨rfl, hcrowded⟩] at he'
      cases he'
  · rw [if_neg hkind]
    simp [hkind]

end Fragment

/-! ## What the place of a file says of its part of the document -/

theorem ComponentKind.exists_ofFolder? {folder : String} (h : folder ∈ componentFolders) :
    ∃ kind, ofFolder? folder = some kind := by
  have hall : ∀ folder ∈ componentFolders, (ofFolder? folder).isSome = true := by decide
  exact Option.isSome_iff_exists.mp (hall folder h)

/-- A file is one of an operation, one of components, or a part of the document as it is. -/
theorem Place.ofParts_cases (base : String) (parts : List String) :
    (∃ key, (ofParts base parts).operation = some key ∧
      (ofParts base parts).kind.isOperation = true) ∨
    (∃ kind, ofParts base parts = { kind := .component, component := some kind }) ∨
    ofParts base parts = { kind := .static } ∨ ofParts base parts = { kind := .other } := by
  rw [ofParts]
  split
  · exact .inr (.inr (.inl rfl))
  · dsimp only
    split
    · split
      · exact .inl ⟨_, rfl, rfl⟩
      · exact .inl ⟨_, rfl, rfl⟩
    · split
      · next folder hfolder =>
        have hmem := List.find?_some hfolder
        obtain ⟨kind, hkind⟩ := ComponentKind.exists_ofFolder? (List.contains_iff_mem.mp hmem)
        rw [hkind]
        exact .inr (.inl ⟨kind, rfl⟩)
      · exact .inr (.inr (.inr rfl))

namespace Fragment

/-- The fragment that a file at the given place holds. -/
def ofContent (source : String) (place : Place) (content : Fields) : Fragment :=
  ⟨source, content, place.kind, place.component, place.operation, place.version⟩

/-- The entries of a file at the given place cannot become a part of the document, and why. -/
inductive Spoils (place : Place) (content : Fields) : Failure → Prop
  /-- Nothing can be nested in the content of an entry of components. -/
  | content {e : Value × Value} {entry : Fields} (hkind : place.kind = .component)
      (he : e ∈ content) (hentry : e.2 = .map entry) (hcrowded : Crowded entry) :
      Spoils place content .noMember
  /-- A key that spells a place does not tell the kind of the component. -/
  | key {e : Value × Value} (hkind : place.kind = .static ∨ place.kind = .other) (he : e ∈ content)
      (hspells : SpellsPlace e) : Spoils place content .outOfRange

/-- A file of components is spoiled by one of its entries. -/
theorem Spoils.exists_crowded {component : Option ComponentKind} {content : Fields}
    {failure : Failure} (h : Spoils { kind := .component, component } content failure) :
    ∃ e ∈ content, ∃ entry, e.2 = .map entry ∧ Crowded entry := by
  cases h with
  | content _ he hentry hcrowded => exact ⟨_, he, _, hentry, hcrowded⟩
  | key h _ _ => rcases h with h | h <;> cases h

theorem transform_eq_error_cases {f : Fragment} {failure : Failure} :
    f.transform = .error failure ↔ withContent f = .error failure ∨
      ∃ data, withContent f = .ok data ∧
        expandEntries [] (wrapped f (withOperation f data)) = .error failure := by
  rw [transform, unexpanded, bind_eq_error, map_eq_error]
  refine or_congr_right ⟨?_, ?_⟩
  · rintro ⟨plain, hplain, h⟩
    obtain ⟨data, hdata, rfl⟩ := ApiTree.map_eq_ok.mp hplain
    exact ⟨data, hdata, h⟩
  · rintro ⟨data, hdata, h⟩
    exact ⟨_, ApiTree.map_eq_ok.mpr ⟨data, hdata, rfl⟩, h⟩

/-- The texts of an operation and of components stand below two keys at least. -/
theorem expandable_nested (first second : String) (v : Value) :
    Expandable [] (.single first (.single second v)) :=
  expandable_single (expandable_single (expandable_of_length (by simp) v))

section

variable {source : String} {place : Place} {content : Fields} {failure : Failure}

theorem transform_error_of_operation {key : OperationKey} (hkey : place.operation = some key)
    (hkind : place.kind.isOperation = true) :
    (ofContent source place content).transform = .error failure ↔ Spoils place content failure := by
  have hcomponent : place.kind ≠ .component := by
    intro h
    rw [h] at hkind
    cases hkind
  rw [transform_eq_error_cases, withContent_eq_error_iff]
  constructor
  · rintro (⟨-, h, -⟩ | ⟨data, -, h⟩)
    · exact absurd h hcomponent
    · rw [wrapped, ofContent, hkey] at h
      exact absurd (expandable_nested _ _ _) (expandEntries_eq_error_iff.mp h).2
  · intro h
    cases h with
    | content h _ _ _ => exact absurd h hcomponent
    | key h _ _ => rcases h with h | h <;> (rw [h] at hkind; cases hkind)

theorem transform_error_of_component {kind : ComponentKind}
    (hplace : place = { kind := .component, component := some kind }) :
    (ofContent source place content).transform = .error failure ↔ Spoils place content failure := by
  subst hplace
  rw [transform_eq_error_cases, withContent_eq_error_iff]
  constructor
  · rintro (⟨rfl, -, e, he, entry, hentry, hcrowded⟩ | ⟨data, -, h⟩)
    · exact .content rfl he hentry hcrowded
    · exact absurd (expandable_nested _ _ _) (expandEntries_eq_error_iff.mp h).2
  · intro h
    cases h with
    | content _ he hentry hcrowded => exact .inl ⟨rfl, rfl, _, he, _, hentry, hcrowded⟩
    | key h _ _ => rcases h with h | h <;> cases h

/-- Nothing is done to the entries of other files but that their names are expanded. -/
theorem transform_of_plain {kind : FileKind} (hkind : kind = .static ∨ kind = .other)
    (hplace : place = { kind }) :
    (ofContent source place content).transform = expandEntries [] content := by
  subst hplace
  rcases hkind with rfl | rfl <;> rfl

theorem transform_error_of_plain {kind : FileKind} (hkind : kind = .static ∨ kind = .other)
    (hplace : place = { kind }) :
    (ofContent source place content).transform = .error failure ↔ Spoils place content failure := by
  rw [transform_of_plain hkind hplace, expandEntries_eq_error_iff, expandable_top_iff]
  subst hplace
  constructor
  · rintro ⟨rfl, h⟩
    push Not at h
    obtain ⟨e, he, hspells⟩ := h
    exact .key hkind he hspells
  · intro h
    cases h with
    | content h _ _ _ => rcases hkind with rfl | rfl <;> cases h
    | key _ he hspells => exact ⟨rfl, fun h => h _ he hspells⟩

end

/-- A fragment becomes a part of the document unless it is spoiled. -/
theorem transform_eq_error_iff {source base : String} {parts : List String} {content : Fields}
    {failure : Failure} :
    (ofContent source (Place.ofParts base parts) content).transform = .error failure ↔
      Spoils (Place.ofParts base parts) content failure := by
  rcases Place.ofParts_cases base parts with ⟨key, hkey, hkind⟩ | ⟨kind, hplace⟩ | hplace | hplace
  · exact transform_error_of_operation hkey hkind
  · exact transform_error_of_component hplace
  · exact transform_error_of_plain (.inl rfl) hplace
  · exact transform_error_of_plain (.inr rfl) hplace

end Fragment
end ApiTree
