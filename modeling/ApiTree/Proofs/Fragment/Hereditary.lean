import ApiTree.Proofs.Fragment.Spoiled

/-!
# What fragments hand down to the document

Some properties of a value are those of its parts: that it can be written out, for one, which it can
if no integer in it has more digits than a numeral may have. Such a property is handed down by every
step that makes fragments a part of the document (`Hereditary.transform`), so that messages can show
every part of a document if they can show every part of its files.
-/

set_option autoImplicit false

namespace ApiTree

open Value Fragment

/-- A sequence or a mapping has the property exactly if all its parts have it, and texts and null
have it. -/
structure Hereditary (P : Value → Prop) : Prop where
  map_iff : ∀ {entries : Fields}, P (.map entries) ↔ ∀ e ∈ entries, P e.1 ∧ P e.2
  seq_iff : ∀ {items : List Value}, P (.seq items) ↔ ∀ v ∈ items, P v
  str : ∀ s, P (.str s)
  null : P .null

/-- That a value can be written out is told by its parts. -/
theorem hereditary_hasLiteral : Hereditary fun v => v.hasLiteral = true where
  map_iff := by
    intro entries
    rw [hasLiteral]
    induction entries with
    | nil => simp [entriesHaveLiteral]
    | cons e entries ih =>
      rw [entriesHaveLiteral, Bool.and_eq_true, Bool.and_eq_true, ih, List.forall_mem_cons]
  seq_iff := by
    intro items
    rw [hasLiteral]
    induction items with
    | nil => simp [itemsHaveLiteral]
    | cons v items ih => rw [itemsHaveLiteral, Bool.and_eq_true, ih, List.forall_mem_cons]
  str _ := rfl
  null := rfl

namespace Hereditary

variable {P : Value → Prop}

section

variable {entries : Fields} (hP : Hereditary P)

include hP

theorem of_get? (h : P (.map entries)) {k v : Value} (hv : Entries.get? k entries = some v) : P v :=
  (hP.map_iff.mp h _ (Entries.mem_of_get? hv)).2

theorem getD (h : P (.map entries)) (key : String) : P (Fields.getD key entries) := by
  rw [Fields.getD]
  cases hget : Fields.get? key entries with
  | none => exact hP.null
  | some v => exact hP.of_get? h hget

theorem of_subset {fewer : Fields} (h : P (.map entries)) (hsub : ∀ e ∈ fewer, e ∈ entries) :
    P (.map fewer) :=
  hP.map_iff.mpr fun e he => hP.map_iff.mp h e (hsub e he)

theorem put (h : P (.map entries)) {k v : Value} (hk : P k) (hv : P v) :
    P (.map (Entries.put k v entries)) := by
  refine hP.map_iff.mpr fun e he => ?_
  rcases Entries.mem_put he with rfl | he
  · exact ⟨hk, hv⟩
  · exact hP.map_iff.mp h e he

theorem single {key : String} {v : Value} (h : P v) : P (.single key v) := by
  refine hP.map_iff.mpr fun e he => ?_
  rw [List.mem_singleton.mp he]
  exact ⟨hP.str key, h⟩

theorem nil : P (.map []) := hP.map_iff.mpr fun _ he => by cases he

end

/-! ## Merging and expanding -/

mutual

theorem merge (hP : Hereditary P) : ∀ (upper : Value) {base : Option Value}, (∀ v ∈ base, P v) →
    P upper → P (Value.merge base upper)
  | .map _, none, _, h => h
  | .map upper, some base, hbase, h => by
    cases base with
    | map entries => exact hP.mergeEntries upper (hbase _ rfl) h
    | _ => exact h
  | .null, _, _, h | .bool _, _, _, h | .int _, _, _, h | .float _, _, _, h | .str _, _, _, h
  | .date _, _, _, h | .timestamp _, _, _, h | .bytes _, _, _, h | .seq _, _, _, h
  | .set _, _, _, h | .pair _ _, _, _, h => h

theorem mergeEntries (hP : Hereditary P) : ∀ (upper : List (Value × Value)) {entries : Fields},
    P (.map entries) → P (.map upper) → P (.map (Value.mergeEntries entries upper))
  | [], _, hbase, _ => hbase
  | (k, v) :: upper, entries, hbase, h => by
    rw [hP.map_iff, List.forall_mem_cons] at h
    obtain ⟨⟨hk, hv⟩, hrest⟩ := h
    rw [Value.mergeEntries]
    refine hP.mergeEntries upper (hP.put hbase hk ?_) (hP.map_iff.mpr hrest)
    exact hP.merge v (fun w hw => hP.of_get? hbase hw) hv

end

mutual

theorem mapTexts (hP : Hereditary P) {f : List String → String → Value}
    (hf : ∀ path s, P (f path s)) :
    ∀ (v : Value) {path : List String}, P v → P (Reference.mapTexts f path v)
  | .str s, path, _ => hf path s
  | .seq items, _, h =>
    hP.seq_iff.mpr (hP.mapTextsOfItems hf items (hP.seq_iff.mp h))
  | .map entries, _, h =>
    hP.map_iff.mpr (hP.mapTextsOfEntries hf entries (hP.map_iff.mp h))
  | .null, _, h | .bool _, _, h | .int _, _, h | .float _, _, h | .date _, _, h
  | .timestamp _, _, h | .bytes _, _, h | .set _, _, h | .pair _ _, _, h => h

theorem mapTextsOfItems (hP : Hereditary P) {f : List String → String → Value}
    (hf : ∀ path s, P (f path s)) :
    ∀ (vs : List Value) {path : List String}, (∀ v ∈ vs, P v) →
      ∀ v ∈ Reference.mapTextsOfItems f path vs, P v
  | [], _, h => h
  | v :: vs, _, h => by
    rw [List.forall_mem_cons] at h
    exact List.forall_mem_cons.mpr ⟨hP.mapTexts hf v h.1, hP.mapTextsOfItems hf vs h.2⟩

theorem mapTextsOfEntries (hP : Hereditary P) {f : List String → String → Value}
    (hf : ∀ path s, P (f path s)) :
    ∀ (es : List (Value × Value)) {path : List String}, (∀ e ∈ es, P e.1 ∧ P e.2) →
      ∀ e ∈ Reference.mapTextsOfEntries f path es, P e.1 ∧ P e.2
  | [], _, h => h
  | (k, v) :: es, _, h => by
    rw [List.forall_mem_cons] at h
    exact List.forall_mem_cons.mpr ⟨⟨h.1.1, hP.mapTexts hf v h.1.2⟩, hP.mapTextsOfEntries hf es h.2⟩

end

section

variable (hP : Hereditary P)

include hP

theorem reference (target : String) : P (.reference target) := hP.single (hP.str target)

theorem replacement (path : List String) (name : String) : P (Reference.replacement path name) := by
  rw [Reference.replacement]
  cases h : Reference.expandText path name with
  | error f => exact hP.str name
  | ok v =>
    rcases Reference.expandText_cases h with ⟨rfl, -⟩ | ⟨⟨target, rfl⟩, -⟩
    · exact hP.str name
    · exact hP.reference target

/-! ## The steps -/

theorem nestContent {entry nested : Fields} (h : Fragment.nestContent entry = .ok nested)
    (hentry : P (.map entry)) : P (.map nested) := by
  rw [Fragment.nestContent] at h
  split at h
  · rw [← Except.ok.inj h]
    exact hentry
  · have hrest : P (.map (Fields.erase "examples" (Fields.erase "schema" entry))) :=
      hP.of_subset hentry fun e he =>
        (Entries.erase_sublist _ _).subset ((Entries.erase_sublist _ _).subset he)
    have hflat : P (.map (Fields.pick ["schema", "examples"] entry)) :=
      hP.of_subset hentry fun e he => Entries.mem_of_get? (Entries.get?_of_mem_pick he)
    dsimp only at h
    split at h
    · next content hcontent =>
      have hbase : P (.map content) := by
        rw [← hcontent]
        split
        · exact hP.getD hrest "content"
        · exact hP.nil
      rw [← Except.ok.inj h]
      refine hP.put hrest (hP.str _) (hP.mergeEntries _ hbase (hP.single ?_))
      exact hP.of_subset hflat fun e he => List.mem_of_mem_filter he
    · cases h

theorem nestEntry {e e' : Value × Value} (h : Fragment.nestEntry e = .ok e')
    (he : P e.1 ∧ P e.2) : P e'.1 ∧ P e'.2 := by
  obtain ⟨k, v⟩ := e
  cases v with
  | map entry =>
    obtain ⟨nested, hnested, hpair⟩ := bind_eq_ok.mp h
    rw [← Except.ok.inj hpair]
    exact ⟨he.1, hP.nestContent hnested he.2⟩
  | _ =>
    rw [← Except.ok.inj h]
    exact he

theorem withContent {f : Fragment} {data : Fields} (h : Fragment.withContent f = .ok data)
    (hf : P (.map f.content)) : P (.map data) := by
  rw [withContent_eq] at h
  split at h
  · have hentries : ∀ e ∈ f.content, ∃ e', Fragment.nestEntry e = .ok e' ∧ P e'.1 ∧ P e'.2 := by
      intro e he
      obtain ⟨e', he'⟩ := succeeds_mapM.mp ⟨data, h⟩ e he
      exact ⟨e', he', hP.nestEntry he' (hP.map_iff.mp hf e he)⟩
    obtain ⟨data', hdata, hall⟩ := exists_mapM_ok_forall.mpr hentries
    obtain rfl := Except.ok.inj (h.symm.trans hdata)
    exact hP.map_iff.mpr hall
  · rw [← Except.ok.inj h]
    exact hf

theorem nameSchema {response : Value} (h : P response) : P (Fragment.nameSchema response) := by
  unfold Fragment.nameSchema
  split
  · split
    · exact hP.put h (hP.str _) (hP.reference _)
    · exact h
  · exact h

theorem identified {data : Fields} (h : P (.map data)) : P (.map (Fragment.identified data)) := by
  unfold Fragment.identified
  split
  · next id hid =>
    split
    · exact h
    · refine hP.put ?_ (hP.str _) (hP.of_get? h hid)
      exact hP.of_subset h fun e he => (Entries.erase_sublist _ _).subset he
  · exact h

theorem withNamedSchemas {data : Fields} (h : P (.map data)) :
    P (.map (Fragment.withNamedSchemas data)) := by
  unfold Fragment.withNamedSchemas
  split
  · next responses hresponses =>
    have hall := hP.map_iff.mp (hP.of_get? h hresponses)
    refine hP.put h (hP.str _) (hP.map_iff.mpr fun e he => ?_)
    obtain ⟨e, hmem, rfl⟩ := List.mem_map.mp he
    exact ⟨(hall e hmem).1, hP.nameSchema (hall e hmem).2⟩
  · next responses hresponses =>
    have hall := hP.seq_iff.mp (hP.of_get? h hresponses)
    refine hP.put h (hP.str _) (hP.seq_iff.mpr fun v hv => ?_)
    obtain ⟨v, hmem, rfl⟩ := List.mem_map.mp hv
    exact hP.nameSchema (hall v hmem)
  · exact h

theorem wrapped (f : Fragment) {data : Fields} (h : P (.map data)) :
    P (.map (Fragment.wrapped f data)) := by
  rw [Fragment.wrapped]
  split
  · exact hP.single (hP.single (hP.single h))
  · split
    · exact hP.single (hP.single h)
    · exact h

/-- What is told of a value by its parts holds of what a fragment becomes if it holds of the
fragment. -/
theorem transform {f : Fragment} {data : Fields} (h : f.transform = .ok data)
    (hf : P (.map f.content)) : P (.map data) := by
  obtain ⟨plain, hplain, hexpand⟩ := bind_eq_ok.mp h
  obtain ⟨content, hcontent, rfl⟩ := map_eq_ok.mp hplain
  obtain ⟨-, rfl⟩ := Reference.expandEntries_eq_ok_iff.mp hexpand
  have hoperation : P (.map (Fragment.withOperation f content)) := by
    rw [withOperation_eq]
    split
    · exact hP.withNamedSchemas (hP.identified (hP.withContent hcontent hf))
    · exact hP.withContent hcontent hf
  exact hP.map_iff.mpr
    (hP.mapTextsOfEntries hP.replacement _ (hP.map_iff.mp (hP.wrapped f hoperation)))

end

end Hereditary
end ApiTree
