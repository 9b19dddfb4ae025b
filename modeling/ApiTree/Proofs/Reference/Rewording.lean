import ApiTree.Proofs.Reference.Expansion

/-!
# Documents that differ in their texts

Whether a text is expanded is decided by its path, and never by the text. Two documents of one
shape, with the same keys and other texts, therefore expand alike (`alike_expand_reword`): neither
can be expanded, or the results have one shape too, and at each place either both texts have stayed
or both have become references that differ in the name alone.
-/

set_option autoImplicit false

namespace ApiTree.Reference

/-- The document with each of its texts replaced by what `f` makes of it. Keys are no texts, and
neither is what stands in pairs and sets, into which an expansion does not look. -/
def reword (f : String → String) (document : Value) : Value :=
  mapTexts (fun _ s => .str (f s)) [] document

/-- The value is neither a text, nor a list or mapping that leads to further values. -/
def IsOther : Value → Prop
  | .str _ | .seq _ | .map _ => False
  | _ => True

/-- What a reference at the end of a path writes before and after the name. -/
inductive Frames : List String → String → String → Prop
  | schema {path : List String} (hschema : LeadsToSchema path) :
      Frames path "#/components/schemas/" ""
  | content {path : List String} {kind second : String} (hschema : ¬ LeadsToSchema path)
      (hcontent : LeadsToContent kind path) (hsecond : path[1]? = some second) :
      Frames path ("#/components/" ++ second ++ "/") "/content/application~1json/schema"

mutual

/-- How the results for a value at the end of a path and for its rewording by `f` go together. -/
inductive Together (f : String → String) : List String → Value → Value → Value → Prop
  /-- A text at no place of a name stays. -/
  | kept {path : List String} (hschema : ¬ LeadsToSchema path)
      (hcontent : ∀ kind, ¬ LeadsToContent kind path) (s : String) :
      Together f path (.str s) (.str s) (.str (f s))
  /-- A text at the place of a name becomes a reference; another text becomes the same with its own
  name. -/
  | expanded {path : List String} {before after : String} (h : Frames path before after)
      (s : String) :
      Together f path (.str s) (.reference (before ++ s ++ after))
        (.reference (before ++ f s ++ after))
  | seq {path : List String} {items results others : List Value}
      (h : TogetherItems f path items results others) :
      Together f path (.seq items) (.seq results) (.seq others)
  | map {path : List String} {entries results others : Fields}
      (h : TogetherEntries f path entries results others) :
      Together f path (.map entries) (.map results) (.map others)
  | other {path : List String} {v : Value} (h : IsOther v) : Together f path v v v

/-- The elements of lists of one length go together. -/
inductive TogetherItems (f : String → String) :
    List String → List Value → List Value → List Value → Prop
  | nil {path : List String} : TogetherItems f path [] [] []
  | cons {path : List String} {v r q : Value} {vs rs qs : List Value}
      (h : Together f path v r q) (hrest : TogetherItems f path vs rs qs) :
      TogetherItems f path (v :: vs) (r :: rs) (q :: qs)

/-- The entries of mappings with the same keys in one order go together. -/
inductive TogetherEntries (f : String → String) : List String → Fields → Fields → Fields → Prop
  | nil {path : List String} : TogetherEntries f path [] [] []
  | cons {path : List String} {k v r q : Value} {es fs gs : Fields}
      (h : Together f (path ++ [k.text]) v r q) (hrest : TogetherEntries f path es fs gs) :
      TogetherEntries f path ((k, v) :: es) ((k, r) :: fs) ((k, q) :: gs)

end

/-! ## Texts -/

/-- At one path two texts are expanded alike. -/
theorem alike_expandText_reword (f : String → String) (path : List String) (s : String) :
    Alike (Together f path (.str s)) (expandText path s) (expandText path (f s)) := by
  by_cases hschema : LeadsToSchema path
  · rw [expandText_of_schema hschema, expandText_of_schema hschema]
    have htogether := Together.expanded (f := f) (.schema hschema) s
    rw [String.append_empty, String.append_empty] at htogether
    exact .ok htogether
  by_cases hcontent : ∃ kind, LeadsToContent kind path
  · cases hsecond : path[1]? with
    | none =>
      -- there is no kind, whatever the name
      have hfail (name : String) : expandText path name = .error .outOfRange :=
        expandText_eq_error_iff.mpr ⟨rfl,
          Bool.eq_false_iff.mpr (mt (isSchemaPlace_joined_iff path).mp hschema),
          (isComponentPlace_joined_iff path).mpr hcontent, List.getElem?_eq_none_iff.mp hsecond⟩
      rw [hfail, hfail]
      exact .error _
    | some second =>
      obtain ⟨kind, hkind⟩ := hcontent
      rw [expandText_of_content hschema hkind hsecond, expandText_of_content hschema hkind hsecond]
      exact .ok (.expanded (.content hschema hkind hsecond) s)
  · have hneither := not_exists.mp hcontent
    rw [expandText_of_neither hschema hneither, expandText_of_neither hschema hneither]
    exact .ok (.kept hschema hneither s)

/-! ## Documents -/

mutual

theorem alike_expandAt_reword (f : String → String) : ∀ (path : List String) (v : Value),
    Alike (Together f path v) (expandAt path v)
      (expandAt path (mapTexts (fun _ s => .str (f s)) path v))
  | path, .str s => alike_expandText_reword f path s
  | path, .seq items => (alike_expandItems_reword f path items).map fun _ _ h => .seq h
  | path, .map entries => (alike_expandEntries_reword f path entries).map fun _ _ h => .map h
  | _, .null | _, .bool _ | _, .int _ | _, .float _ | _, .date _ | _, .timestamp _ | _, .bytes _
  | _, .set _ | _, .pair _ _ => .ok (.other trivial)

theorem alike_expandItems_reword (f : String → String) : ∀ (path : List String) (vs : List Value),
    Alike (TogetherItems f path vs) (expandItems path vs)
      (expandItems path (mapTextsOfItems (fun _ s => .str (f s)) path vs))
  | _, [] => .ok .nil
  | path, v :: vs => by
    rw [mapTextsOfItems, expandItems, expandItems]
    refine (alike_expandAt_reword f path v).bind fun r q h => ?_
    exact (alike_expandItems_reword f path vs).bind fun rs qs hrest => .ok (.cons h hrest)

theorem alike_expandEntries_reword (f : String → String) : ∀ (path : List String) (es : Fields),
    Alike (TogetherEntries f path es) (expandEntries path es)
      (expandEntries path (mapTextsOfEntries (fun _ s => .str (f s)) path es))
  | _, [] => .ok .nil
  | path, (k, v) :: es => by
    rw [mapTextsOfEntries, expandEntries, expandEntries]
    refine (alike_expandAt_reword f (path ++ [k.text]) v).bind fun r q h => ?_
    exact (alike_expandEntries_reword f path es).bind fun fs gs hrest => .ok (.cons h hrest)

end

/-- An expansion does not look at the texts of a document. With other texts it fails in the same
way, or its results go together place by place. -/
theorem alike_expand_reword (f : String → String) (document : Value) :
    Alike (Together f [] document) (expand document) (expand (reword f document)) :=
  alike_expandAt_reword f [] document

end ApiTree.Reference
