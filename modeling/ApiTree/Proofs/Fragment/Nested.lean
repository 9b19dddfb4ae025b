import ApiTree.Proofs.Fragment.Spoiled
import ApiTree.Proofs.Value.Follow

/-!
# Flat and nested entries of components

An entry of components may hold its schema and its examples flat, or in its content under JSON. What
is flat is nested before anything else is done to the entry, on top of what its content holds there
already, and everything else stays as it was (`nestedAs_nestedEntry`). A file whose entries are
nested so, whoever did it, becomes the same part of the document (`alike_wrapped`).
-/

set_option autoImplicit false

namespace ApiTree

open Value Reference

namespace Fragment

/-! ## What is flat and where it belongs -/

/-- The keys of an entry that belong into its content. -/
def flatKeys : List Value := [.str "schema", .str "examples"]

/-- The entry holds something flat. -/
def HasFlat (entry : Fields) : Prop :=
  Fields.has "schema" entry = true ∨ Fields.has "examples" entry = true

instance (entry : Fields) : Decidable (HasFlat entry) := inferInstanceAs (Decidable (_ ∨ _))

theorem hasFlat_iff {entry : Fields} : HasFlat entry ↔ ∃ k ∈ flatKeys, k ∈ Entries.keys entry := by
  simp [HasFlat, flatKeys, Fields.has, Entries.has, Option.isSome_iff_ne_none,
    Entries.get?_eq_none_iff]

/-- Where an entry holds what is for JSON. -/
def jsonPlace : List Value := [.str "content", .str jsonMedia]

/-- The second entry is the first one with what is flat in it nested: on top of what the first one
has under JSON, without what is null, and with everything else as it is. There is a mapping under
JSON in any case, so that a leaf the first one may have there makes room for it. -/
structure NestedAs (entry nested : Fields) : Prop where
  gone : ∀ k ∈ flatKeys, Entries.get? k nested = none
  others : ∀ k ∉ flatKeys, k ≠ .str "content" → Entries.get? k nested = Entries.get? k entry
  media : ∀ t, t ≠ .str jsonMedia →
    (Value.map nested).follow? [.str "content", t] = (Value.map entry).follow? [.str "content", t]
  json : ∃ media, (Value.map nested).follow? jsonPlace = some (.map media)
  mediaOthers : ∀ k ∉ flatKeys,
    (Value.map nested).follow? (jsonPlace ++ [k]) = (Value.map entry).follow? (jsonPlace ++ [k])
  written : ∀ k ∈ flatKeys, ∀ v, Entries.get? k entry = some v → v.isNull = false →
    (Value.map nested).follow? (jsonPlace ++ [k]) =
      some (merge ((Value.map entry).follow? (jsonPlace ++ [k])) v)
  unwritten : ∀ k ∈ flatKeys, (∀ v, Entries.get? k entry = some v → v.isNull = true) →
    (Value.map nested).follow? (jsonPlace ++ [k]) = (Value.map entry).follow? (jsonPlace ++ [k])
  noNull : ∀ k ∈ flatKeys, (Value.map nested).follow? (jsonPlace ++ [k]) = some .null →
    (Value.map entry).follow? (jsonPlace ++ [k]) = some .null

/-- The second value is the first one with what is flat in it nested, if it is a mapping. -/
inductive NestsTo : Value → Value → Prop
  | kept {v : Value} (h : ∀ entry, v = .map entry → ¬ HasFlat entry) : NestsTo v v
  | nested {entry nested : Fields} (hflat : HasFlat entry) (h : NestedAs entry nested) :
    NestsTo (.map entry) (.map nested)

/-! ## Nesting an entry -/

/-- What an entry holds flat, without what is null. -/
def flatMedia (entry : Fields) : Fields :=
  (Entries.pick flatKeys entry).filter fun e => !e.2.isNull

/-- The content of an entry, if that is a mapping. -/
def contentOf (entry : Fields) : Fields :=
  match Fields.getD "content" entry with
  | .map content => content
  | _ => []

/-- The entry with what is flat in it nested in its content. -/
def nestedEntry (entry : Fields) : Fields :=
  Fields.put "content" (.map (mergeEntries (contentOf entry)
    [(.str jsonMedia, .map (flatMedia entry))]))
    (Fields.erase "examples" (Fields.erase "schema" entry))

/-- The value with what is flat in it nested, if it is a mapping. -/
def nestedForm : Value → Value
  | .map entry => if HasFlat entry then .map (nestedEntry entry) else .map entry
  | v => v

/-- The value is no mapping, or its content is absent, null or a mapping. -/
def HasRoom (v : Value) : Prop :=
  ∀ content ∈ v.member? "content", content.isNull = true ∨ content.isMap = true

instance (v : Value) : Decidable (HasRoom v) :=
  inferInstanceAs (Decidable (∀ content ∈ v.member? "content", _))

theorem nestContent_of_not_hasFlat {entry : Fields} (h : ¬ HasFlat entry) :
    nestContent entry = .ok entry := by
  rw [nestContent, isEmpty_pick_iff.mpr h]
  rfl

theorem nestContent_of_hasFlat {entry : Fields} (h : HasFlat entry)
    (hroom : HasRoom (.map entry)) : nestContent entry = .ok (nestedEntry entry) := by
  have hflat : ¬ (Fields.pick ["schema", "examples"] entry).isEmpty = true :=
    fun hempty => isEmpty_pick_iff.mp hempty h
  rw [nestContent, if_neg hflat]
  have hmember : Fields.getD "content" entry =
      Value.ofOption ((Value.map entry).member? "content") := rfl
  simp only [getD_content_rest, nestedEntry, contentOf, hmember]
  cases hget : (Value.map entry).member? "content" with
  | none => rfl
  | some content =>
    have hcontent := hroom content hget
    cases content with
    | null => rfl
    | map content =>
      -- an empty mapping is replaced by an empty mapping
      cases content <;> rfl
    | _ => rcases hcontent with hcontent | hcontent <;> cases hcontent

theorem nestEntry_eq_ok {e : Value × Value} (h : HasRoom e.2) :
    nestEntry e = .ok (e.1, nestedForm e.2) := by
  obtain ⟨k, v⟩ := e
  cases v with
  | map entry =>
    have hnest : nestContent entry =
        .ok (if HasFlat entry then nestedEntry entry else entry) := by
      split
      · next hflat => exact nestContent_of_hasFlat hflat h
      · next hflat => exact nestContent_of_not_hasFlat hflat
    rw [nestEntry, nestedForm]
    simp only [hnest]
    split <;> rfl
  | _ => rfl

/-! ## What the nested entry holds -/

theorem nodup_pick_flatKeys (entry : Fields) :
    (Entries.keys (Entries.pick flatKeys entry)).Nodup :=
  (by decide : flatKeys.Nodup).sublist (Entries.keys_pick_sublist flatKeys entry)

theorem nodup_flatMedia (entry : Fields) : (Entries.keys (flatMedia entry)).Nodup :=
  (nodup_pick_flatKeys entry).sublist (List.filter_sublist.map Prod.fst)

theorem get?_flatMedia (k : Value) (entry : Fields) :
    Entries.get? k (flatMedia entry) =
      if k ∈ flatKeys then (Entries.get? k entry).filter (!·.isNull) else none := by
  rw [flatMedia, Entries.get?_filter_values (nodup_pick_flatKeys entry) k fun v => !v.isNull,
    Entries.get?_pick]
  split <;> rfl

/-- Keys into the content of an entry. -/
theorem follow?_content (entry : Fields) (t : Value) (keys : List Value) :
    (Value.map entry).follow? (.str "content" :: t :: keys) =
      (Value.map (contentOf entry)).follow? (t :: keys) := by
  rw [follow?, valueAt?, contentOf, Fields.getD, Fields.get?]
  cases Entries.get? (.str "content") entry with
  | none => rfl
  | some v => cases v <;> rfl

theorem contentOf_nestedEntry (entry : Fields) :
    contentOf (nestedEntry entry) =
      mergeEntries (contentOf entry) [(.str jsonMedia, .map (flatMedia entry))] := by
  rw [contentOf, nestedEntry, Fields.getD, Fields.get?, Fields.put, Entries.get?_put_self]
  rfl

/-- Keys into what the nested entry holds under JSON. -/
theorem follow?_json_nestedEntry (entry : Fields) (keys : List Value) :
    (Value.map (nestedEntry entry)).follow? (jsonPlace ++ keys) =
      (merge (Entries.get? (.str jsonMedia) (contentOf entry))
        (.map (flatMedia entry))).follow? keys := by
  rw [jsonPlace, List.cons_append, List.singleton_append, follow?_content, contentOf_nestedEntry,
    mergeEntries, mergeEntries, follow?, valueAt?, Entries.get?_put_self, Option.bind_some]

/-- At a key under JSON what is flat is on top of what was there. -/
theorem follow?_key_nestedEntry (entry : Fields) (k : Value) :
    (Value.map (nestedEntry entry)).follow? (jsonPlace ++ [k]) =
      match Entries.get? k (flatMedia entry) with
      | some v => some (merge ((Value.map entry).follow? (jsonPlace ++ [k])) v)
      | none => (Value.map entry).follow? (jsonPlace ++ [k]) := by
  have hkey (v : Value) : v.follow? [k] = v.valueAt? k := Option.bind_fun_some _
  have hentry : (Value.map entry).follow? (jsonPlace ++ [k]) =
      (Entries.get? (.str jsonMedia) (contentOf entry)).bind (·.valueAt? k) := by
    rw [jsonPlace, List.cons_append, List.singleton_append, follow?_content, follow?, valueAt?]
    simp only [hkey]
  rw [follow?_json_nestedEntry, hkey, hentry]
  exact valueAt?_merge k _ (nodup_flatMedia entry)

/-- An entry is nested as it should be. -/
theorem nestedAs_nestedEntry {entry : Fields} (h : (Entries.keys entry).Nodup) :
    NestedAs entry (nestedEntry entry) := by
  have hflat {k : Value} (hk : k ∈ flatKeys) : k = .str "schema" ∨ k = .str "examples" := by
    simpa [flatKeys] using hk
  have hrest : (Entries.keys (Fields.erase "schema" entry)).Nodup := Entries.nodup_keys_erase _ h
  constructor
  case gone =>
    intro k hk
    rw [nestedEntry, Fields.put, Fields.erase]
    rcases hflat hk with rfl | rfl
    · rw [Entries.get?_put_of_ne (by decide), Entries.get?_erase_of_ne (by decide)]
      exact Entries.get?_erase_self h
    · rw [Entries.get?_put_of_ne (by decide)]
      exact Entries.get?_erase_self hrest
  case others =>
    intro k hk hcontent
    simp only [flatKeys, List.mem_cons, List.not_mem_nil, or_false, not_or] at hk
    rw [nestedEntry, Fields.put, Fields.erase, Fields.erase,
      Entries.get?_put_of_ne (Ne.symm hcontent), Entries.get?_erase_of_ne (Ne.symm hk.2),
      Entries.get?_erase_of_ne (Ne.symm hk.1)]
  case media =>
    intro t ht
    rw [follow?_content, follow?_content, contentOf_nestedEntry, mergeEntries, mergeEntries,
      follow?, valueAt?, Entries.get?_put_of_ne (Ne.symm ht)]
    rfl
  case json =>
    have hmap := isMap_merge_map (Entries.get? (.str jsonMedia) (contentOf entry))
      (flatMedia entry)
    rw [← List.append_nil jsonPlace, follow?_json_nestedEntry, follow?]
    cases hmerged : merge (Entries.get? (.str jsonMedia) (contentOf entry))
        (.map (flatMedia entry)) with
    | map media => exact ⟨media, rfl⟩
    | _ => rw [hmerged] at hmap; cases hmap
  case mediaOthers =>
    intro k hk
    rw [follow?_key_nestedEntry, get?_flatMedia, if_neg hk]
  case written =>
    intro k hk v hv hnull
    rw [follow?_key_nestedEntry, get?_flatMedia, if_pos hk, hv, Option.filter_some, hnull]
    rfl
  case unwritten =>
    intro k hk hnull
    rw [follow?_key_nestedEntry, get?_flatMedia, if_pos hk]
    cases hv : Entries.get? k entry with
    | none => rfl
    | some v =>
      rw [Option.filter_some, hnull v hv]
      rfl
  case noNull =>
    intro k hk hnull
    rw [follow?_key_nestedEntry, get?_flatMedia, if_pos hk] at hnull
    cases hv : (Entries.get? k entry).filter (!·.isNull) with
    | none => rwa [hv] at hnull
    | some v =>
      -- only a null on top gives a null
      rw [hv, Option.some.injEq] at hnull
      rw [eq_null_of_merge hnull] at hv
      cases (Option.filter_eq_some_iff.mp hv).2

/-! ## Nested forms -/

theorem nestsTo_nestedForm {v : Value} (h : KeysOnce v) : NestsTo v (nestedForm v) := by
  cases v with
  | map entry =>
    rw [nestedForm]
    split
    · next hflat => exact .nested hflat (nestedAs_nestedEntry h.nodup)
    · next hflat => exact .kept fun e he => (Value.map.inj he) ▸ hflat
  | _ => exact .kept fun e he => by cases he

/-- A nested value holds nothing flat. -/
theorem NestsTo.not_hasFlat {v : Value} {nested : Fields} (h : NestsTo v (.map nested)) :
    ¬ HasFlat nested := by
  cases h with
  | kept h => exact h nested rfl
  | nested _ h =>
    rw [hasFlat_iff]
    rintro ⟨k, hk, hmem⟩
    exact Entries.get?_eq_none_iff.mp (h.gone k hk) hmem

/-- Nothing is left to nest in a nested value. -/
theorem NestsTo.nestEntry_eq {v w : Value} (h : NestsTo v w) (k : Value) :
    nestEntry (k, w) = .ok (k, w) := by
  cases w with
  | map nested =>
    rw [nestEntry]
    simp only [nestContent_of_not_hasFlat h.not_hasFlat]
    rfl
  | _ => rfl

theorem NestedAs.content_eq {entry nested : Fields} (h : NestedAs entry nested) :
    Entries.get? (.str "content") nested = some (.map (contentOf nested)) := by
  obtain ⟨media, hmedia⟩ := h.json
  obtain ⟨content, hcontent, hmedia⟩ := Option.bind_eq_some_iff.mp hmedia
  change Entries.get? (.str "content") nested = some content at hcontent
  rw [contentOf, Fields.getD, Fields.get?, hcontent]
  cases content with
  | map content => rfl
  | _ => cases hmedia

/-- What is nested is told by the entry, up to the order of keys. -/
theorem NestedAs.agree {entry nested other : Fields} (h : NestedAs entry nested)
    (h' : NestedAs entry other) : Agree (.map nested) (.map other) := by
  -- the media for JSON agree
  obtain ⟨media, hmedia⟩ := h.json
  obtain ⟨media', hmedia'⟩ := h'.json
  have hjson : Agree (.map media) (.map media') := by
    refine agree_of_valueAt? rfl rfl fun k => rel_agree_of_eq ?_
    have hkey {m n : Fields} (hm : (Value.map n).follow? jsonPlace = some (.map m)) :
        (Value.map n).follow? (jsonPlace ++ [k]) = (Value.map m).valueAt? k := by
      rw [follow?_append, hm]
      exact Option.bind_fun_some _
    rw [← hkey hmedia, ← hkey hmedia']
    by_cases hk : k ∈ flatKeys
    · by_cases hnull : ∀ v, Entries.get? k entry = some v → v.isNull = true
      · rw [h.unwritten k hk hnull, h'.unwritten k hk hnull]
      · push Not at hnull
        obtain ⟨v, hv, hnull⟩ := hnull
        rw [h.written k hk v hv (Bool.eq_false_of_not_eq_true hnull),
          h'.written k hk v hv (Bool.eq_false_of_not_eq_true hnull)]
    · rw [h.mediaOthers k hk, h'.mediaOthers k hk]
  -- and so does the content
  have hcontent : Agree (.map (contentOf nested)) (.map (contentOf other)) := by
    refine agree_of_valueAt? rfl rfl fun t => ?_
    have htype (n : Fields) :
        (Value.map n).follow? [.str "content", t] = (Value.map (contentOf n)).valueAt? t :=
      (follow?_content n t []).trans (Option.bind_fun_some _)
    rw [← htype, ← htype]
    by_cases ht : t = .str jsonMedia
    · subst ht
      change Option.Rel Agree ((Value.map nested).follow? jsonPlace)
        ((Value.map other).follow? jsonPlace)
      rw [hmedia, hmedia']
      exact .some hjson
    · exact rel_agree_of_eq ((h.media t ht).trans (h'.media t ht).symm)
  refine agree_of_valueAt? rfl rfl fun k => ?_
  simp only [valueAt?]
  by_cases hk : k ∈ flatKeys
  · rw [h.gone k hk, h'.gone k hk]
    exact .none
  · by_cases hkey : k = .str "content"
    · rw [hkey, h.content_eq, h'.content_eq]
      exact .some hcontent
    · exact rel_agree_of_eq ((h.others k hk hkey).trans (h'.others k hk hkey).symm)

/-- Nested forms of one value are equal, or those of one entry. -/
theorem NestsTo.eq_or_nestedAs {v w w' : Value} (h : NestsTo v w) (h' : NestsTo v w') :
    w = w' ∨ ∃ entry nested other, w = .map nested ∧ w' = .map other ∧
      NestedAs entry nested ∧ NestedAs entry other := by
  cases h with
  | kept h =>
    cases h' with
    | kept => exact .inl rfl
    | nested hflat => exact absurd hflat (h _ rfl)
  | nested hflat h =>
    cases h' with
    | kept h' => exact absurd hflat (h' _ rfl)
    | nested _ h' => exact .inr ⟨_, _, _, rfl, rfl, h, h'⟩

theorem NestsTo.agree {v w w' : Value} (h : NestsTo v w) (h' : NestsTo v w') : Agree w w' := by
  rcases h.eq_or_nestedAs h' with rfl | ⟨entry, nested, other, rfl, rfl, hnested, hother⟩
  · exact .same w
  · exact hnested.agree hother

theorem NestsTo.spellsPlace_iff {v w w' : Value} (h : NestsTo v w) (h' : NestsTo v w')
    (k : Value) : SpellsPlace (k, w) ↔ SpellsPlace (k, w') := by
  rcases h.eq_or_nestedAs h' with rfl | ⟨entry, nested, other, rfl, rfl, -, -⟩
  · exact Iff.rfl
  · exact iff_of_false (not_spellsPlace_map k nested) (not_spellsPlace_map k other)

/-- Each entry of the second content is the one of the first with what is flat in it nested. -/
def NestsEach (content nested : Fields) : Prop :=
  ∀ k, Option.Rel NestsTo (Entries.get? k content) (Entries.get? k nested)

/-- The content with what is flat in its entries nested. -/
def nestedContent (content : Fields) : Fields :=
  content.map fun e => (e.1, nestedForm e.2)

theorem nestsEach_nestedContent {content : Fields} (h : KeysOnce (.map content)) :
    NestsEach content (nestedContent content) := by
  intro k
  rw [nestedContent, Entries.get?_map_values]
  cases hv : Entries.get? k content with
  | none => exact .none
  | some v => exact .some (nestsTo_nestedForm (h.of_get? hv))

theorem NestsEach.exists_nestsTo {content nested : Fields} (h : NestsEach content nested)
    (hnodup : (Entries.keys nested).Nodup) {e : Value × Value} (he : e ∈ nested) :
    ∃ v, Entries.get? e.1 content = some v ∧ NestsTo v e.2 := by
  have hk := h e.1
  rw [Entries.get?_of_mem hnodup he] at hk
  cases hv : Entries.get? e.1 content with
  | none => rw [hv] at hk; cases hk
  | some v =>
    rw [hv] at hk
    exact ⟨v, rfl, Option.rel_some_some.mp hk⟩

theorem rel_agree_of_nestsTo {x y z : Option Value} (h : Option.Rel NestsTo x y)
    (h' : Option.Rel NestsTo x z) : Option.Rel Agree y z := by
  cases h with
  | none =>
    cases h'
    exact .none
  | some h =>
    cases h' with
    | some h' => exact .some (h.agree h')

theorem NestsEach.agree {content nested other : Fields} (h : NestsEach content nested)
    (h' : NestsEach content other) : Agree (.map nested) (.map other) :=
  agree_of_valueAt? rfl rfl fun k => rel_agree_of_nestsTo (h k) (h' k)

/-- A nested form spells no place where another one does not. -/
theorem NestsEach.not_spellsPlace {content nested other : Fields} (h : NestsEach content nested)
    (h' : NestsEach content other) (hother : (Entries.keys other).Nodup)
    (hnone : ∀ e ∈ nested, ¬ SpellsPlace e) : ∀ e ∈ other, ¬ SpellsPlace e := by
  intro e he hspells
  obtain ⟨v, hv, hnests⟩ := h'.exists_nestsTo hother he
  have hk := h e.1
  rw [hv] at hk
  cases hw : Entries.get? e.1 nested with
  | none => rw [hw] at hk; cases hk
  | some w =>
    rw [hw, Option.rel_some_some] at hk
    exact hnone _ (Entries.mem_of_get? hw) ((hk.spellsPlace_iff hnests e.1).mpr hspells)

theorem withContent_of_room {f : Fragment} (hkind : f.kind = .component)
    (hroom : ∀ e ∈ f.content, HasRoom e.2) : withContent f = .ok (nestedContent f.content) := by
  rw [withContent_eq, if_pos hkind]
  refine (mapM_eq_of_forall₂ (List.forall₂_same.mpr fun e he =>
    nestEntry_eq_ok (hroom e he))).trans ?_
  exact List.mapM_pure

theorem withContent_of_nestsEach {f : Fragment} (hkind : f.kind = .component) {content : Fields}
    (h : NestsEach content f.content) (hnodup : (Entries.keys f.content).Nodup) :
    withContent f = .ok f.content := by
  rw [withContent_eq, if_pos hkind]
  refine (mapM_eq_of_forall₂ (g := pure) (List.forall₂_same.mpr fun e he => ?_)).trans ?_
  · obtain ⟨v, -, hv⟩ := h.exists_nestsTo hnodup he
    exact hv.nestEntry_eq e.1
  · exact List.mapM_pure.trans (congrArg Except.ok (List.map_id' f.content))

/-! ## The part of the document -/

/-- Components are put below two keys, or into the document as they are. -/
theorem wrapped_cases {f : Fragment} (hkind : f.kind = .component) :
    (∃ (first second : String) (inner : Fields → Value),
      (∀ data, Value.map (wrapped f data) = .single first (.single second (inner data))) ∧
        ∀ a b : Fields, Agree (.map a) (.map b) → Agree (inner a) (inner b)) ∨
    f.component = none ∧ ∀ data, wrapped f data = data := by
  simp only [wrapped]
  cases f.operation with
  | some key =>
    exact .inl ⟨"paths", key.path, fun data => .single key.method (.map data), fun _ => rfl,
      fun a b h => agree_single_iff.mpr h⟩
  | none =>
    rw [hkind]
    cases f.component with
    | some kind => exact .inl ⟨"components", kind.render, .map, fun _ => rfl, fun a b h => h⟩
    | none => exact .inr ⟨rfl, fun _ => rfl⟩

theorem transform_of_withContent {f : Fragment} (hkind : f.kind = .component) {data : Fields}
    (h : withContent f = .ok data) : f.transform = expandEntries [] (wrapped f data) := by
  have hoperation : withOperation f data = data := by
    rw [withOperation_eq, hkind]
    rfl
  rw [transform, unexpanded, h]
  exact congrArg (fun d => expandEntries [] (wrapped f d)) hoperation

/-- Contents that are nested forms of one content become the same part of the document. -/
theorem alike_wrapped {f : Fragment} (hkind : f.kind = .component) {content nested other : Fields}
    (h : NestsEach content nested) (h' : NestsEach content other)
    (hnested : (Entries.keys nested).Nodup) (hother : (Entries.keys other).Nodup) :
    Alike (fun a b => Agree (.map a) (.map b)) (expandEntries [] (wrapped f nested))
      (expandEntries [] (wrapped f other)) := by
  rcases wrapped_cases hkind with ⟨first, second, inner, hwrapped, hinner⟩ | ⟨-, hwrapped⟩
  · refine alike_expandEntries ?_ (iff_of_true ?_ ?_)
    · rw [hwrapped, hwrapped]
      exact agree_single_iff.mpr (agree_single_iff.mpr (hinner _ _ (h.agree h')))
    · rw [hwrapped]
      exact expandable_nested first second _
    · rw [hwrapped]
      exact expandable_nested first second _
  · -- entries at the top of the document cannot be expanded if a key of theirs spells a place
    rw [hwrapped, hwrapped]
    refine alike_expandEntries (h.agree h') ?_
    rw [expandable_top_iff, expandable_top_iff]
    exact ⟨h.not_spellsPlace h' hother, h'.not_spellsPlace h hnested⟩

/-- What is flat in the entries of a file of components is nested, nothing is lost by that, and
nothing is left to nest. A file that is written in a nested form of its own becomes the same part of
the document, and there is one if the file tells the kind of its components. -/
theorem withContent_nests {f : Fragment} (hkind : f.kind = .component)
    (honce : KeysOnce (.map f.content)) (hroom : ∀ e ∈ f.content, HasRoom e.2) :
    ∃ data, withContent f = .ok data ∧ Entries.keys data = Entries.keys f.content ∧
      NestsEach f.content data ∧ withContent { f with content := data } = .ok data ∧
      (∀ content, (Entries.keys content).Nodup → NestsEach f.content content →
        Alike (fun a b => Agree (.map a) (.map b)) f.transform
          (transform { f with content })) ∧
      (f.component.isSome = true → Succeeds f.transform) := by
  have hdata := withContent_of_room hkind hroom
  have hkeys := keys_withContent hdata
  have hnests := nestsEach_nestedContent honce
  have hnodup : (Entries.keys (nestedContent f.content)).Nodup :=
    hkeys ▸ honce.nodup
  have htransform := transform_of_withContent hkind hdata
  refine ⟨nestedContent f.content, hdata, hkeys, hnests,
    withContent_of_nestsEach hkind hnests hnodup, fun content hcontent h => ?_, fun hsome => ?_⟩
  · rw [htransform, transform_of_withContent (f := { f with content }) hkind
      (withContent_of_nestsEach hkind h hcontent)]
    exact alike_wrapped hkind hnests h hnodup hcontent
  · rw [htransform]
    rcases wrapped_cases hkind with ⟨first, second, inner, hwrapped, -⟩ | ⟨hnone, -⟩
    · refine ⟨_, expandEntries_eq_ok_iff.mpr ⟨?_, rfl⟩⟩
      rw [hwrapped]
      exact expandable_nested first second _
    · rw [hnone] at hsome
      cases hsome

/-- Responses of which one is written partly flat, with a title and another media type in its
content. -/
def petResponses : Fragment where
  source := "responses/pets.yml"
  kind := .component
  component := some .responses
  content := [
    (.str "Found", .map [(.str "schema", .map [(.str "type", .str "object")]),
      (.str "examples", .null), (.str "description", .str "A pet"),
      (.str "content", .map [(.str "text/plain", .null),
        (.str jsonMedia, .map [(.str "schema", .map [(.str "title", .str "Pet")])])])]),
    (.str "Gone", .map [(.str "description", .str "No pet"), (.str "content", .null)]),
    (.str "Note", .str "text")]

/-- The same responses written nested. -/
def petResponsesNested : Fields := [
    (.str "Found", .map [(.str "description", .str "A pet"),
      (.str "content", .map [(.str "text/plain", .null),
        (.str jsonMedia, .map [(.str "schema",
          .map [(.str "title", .str "Pet"), (.str "type", .str "object")])])])]),
    (.str "Gone", .map [(.str "description", .str "No pet"), (.str "content", .null)]),
    (.str "Note", .str "text")]

theorem withContent_nests_petResponses :
    KeysOnce (.map petResponses.content) ∧ (∀ e ∈ petResponses.content, HasRoom e.2) ∧
    withContent petResponses = .ok petResponsesNested ∧
    NestsEach petResponses.content petResponsesNested ∧
    withContent { petResponses with content := petResponsesNested } = .ok petResponsesNested ∧
    Alike (fun a b => Agree (.map a) (.map b)) petResponses.transform
      (transform { petResponses with content := petResponsesNested }) ∧
    Succeeds petResponses.transform := by
  have honce : KeysOnce (.map petResponses.content) := by decide
  have hroom : ∀ e ∈ petResponses.content, HasRoom e.2 := by decide
  have hnested : withContent petResponses = .ok petResponsesNested := by rfl
  obtain ⟨data, hdata, -, hnests, hagain, halike, hsucceeds⟩ :=
    withContent_nests (f := petResponses) rfl honce hroom
  obtain rfl : petResponsesNested = data := Except.ok.inj (hnested.symm.trans hdata)
  exact ⟨honce, hroom, hnested, hnests, hagain, halike _ (by decide) hnests, hsucceeds rfl⟩

end Fragment
end ApiTree
