import ApiTree.Proofs.Reference.Expansion
import ApiTree.Proofs.Value.Agree

/-!
# Expanding before and after a merge

A document that is merged from several may be expanded before its parts are merged or after. The two
differ exactly where a text at the place of a shorthand name meets a mapping: an expanded name is a
mapping itself, so that the merge keeps the entries of both, while a name that is not expanded yet
replaces the mapping or is replaced by it (`agree_expanded_merge_iff`).
-/

set_option autoImplicit false

namespace ApiTree.Reference

open Value

/-! ## Texts of merged values -/

theorem mem_textsOfEntries {path : List String} {entries : List (Value × Value)}
    {t : List String × String} :
    t ∈ textsOfEntries path entries ↔ ∃ e ∈ entries, t ∈ textsAt (path ++ [e.1.text]) e.2 := by
  induction entries with
  | nil => simp [textsOfEntries]
  | cons e entries ih => rw [textsOfEntries, List.mem_append, ih, List.exists_mem_cons_iff]

mutual

/-- A text of a merged value is one of the base or one of what is put on top. -/
theorem mem_textsAt_merge : ∀ (upper : Value) {path : List String} {base : Option Value}
    {t : List String × String}, t ∈ textsAt path (merge base upper) →
      (∃ v ∈ base, t ∈ textsAt path v) ∨ t ∈ textsAt path upper
  | .map _, _, none, _, h => .inr h
  | .map upper, path, some base, t, h => by
    cases base with
    | map entries =>
      rcases mem_textsOfEntries_mergeEntries upper h with hbase | hupper
      · exact .inl ⟨_, rfl, hbase⟩
      · exact .inr hupper
    | _ => exact .inr h
  | .null, _, _, _, h | .bool _, _, _, _, h | .int _, _, _, _, h | .float _, _, _, _, h
  | .str _, _, _, _, h | .date _, _, _, _, h | .timestamp _, _, _, _, h | .bytes _, _, _, _, h
  | .seq _, _, _, _, h | .set _, _, _, _, h | .pair _ _, _, _, _, h => .inr h

theorem mem_textsOfEntries_mergeEntries : ∀ (upper : List (Value × Value)) {path : List String}
    {entries : List (Value × Value)} {t : List String × String},
    t ∈ textsOfEntries path (mergeEntries entries upper) →
      t ∈ textsOfEntries path entries ∨ t ∈ textsOfEntries path upper
  | [], _, _, _, h => .inl h
  | (k, u) :: upper, path, entries, t, h => by
    rw [textsOfEntries, List.mem_append]
    rcases mem_textsOfEntries_mergeEntries upper h with hput | hupper
    · obtain ⟨e, he, ht⟩ := mem_textsOfEntries.mp hput
      rcases Entries.mem_put he with rfl | he
      · rcases mem_textsAt_merge u ht with ⟨v, hv, htv⟩ | htu
        · exact .inl (mem_textsOfEntries.mpr ⟨(k, v), Entries.mem_of_get? hv, htv⟩)
        · exact .inr (.inl htu)
      · exact .inl (mem_textsOfEntries.mpr ⟨e, he, ht⟩)
    · exact .inr (.inr hupper)

end

theorem Expandable.merge {path : List String} {base upper : Value} (hbase : Expandable path base)
    (hupper : Expandable path upper) : Expandable path (Value.merge (some base) upper) := by
  intro t ht
  rcases mem_textsAt_merge upper ht with ⟨v, hv, htv⟩ | htu
  · obtain rfl := Option.some.inj hv
    exact hbase t htv
  · exact hupper t htu

theorem Expandable.of_get? {path : List String} {entries : Fields}
    (h : Expandable path (.map entries)) {k v : Value} (hv : Entries.get? k entries = some v) :
    Expandable (path ++ [k.text]) v :=
  fun t ht => h t (mem_textsOfEntries.mpr ⟨(k, v), Entries.mem_of_get? hv, ht⟩)

/-! ## Expanded values -/

/-- The value at the end of a path with each text in it replaced by what stands for it. -/
def expanded (path : List String) (v : Value) : Value := mapTexts replacement path v

theorem keys_mapTextsOfEntries (f : List String → String → Value) (path : List String)
    (entries : List (Value × Value)) :
    Entries.keys (mapTextsOfEntries f path entries) = Entries.keys entries := by
  induction entries with
  | nil => rfl
  | cons e entries ih => rw [mapTextsOfEntries, Entries.keys_cons, ih, Entries.keys_cons]

theorem get?_mapTextsOfEntries (f : List String → String → Value) (path : List String)
    (entries : List (Value × Value)) (k : Value) :
    Entries.get? k (mapTextsOfEntries f path entries) =
      (Entries.get? k entries).map (mapTexts f (path ++ [k.text])) := by
  induction entries with
  | nil => rfl
  | cons e entries ih =>
    rw [mapTextsOfEntries, Entries.get?, Entries.get?]
    split
    · next hk => rw [hk]; rfl
    · exact ih

theorem getElem?_mapTextsOfItems (f : List String → String → Value) (path : List String)
    (items : List Value) (i : Nat) :
    (mapTextsOfItems f path items)[i]? = items[i]?.map (mapTexts f path) := by
  induction items generalizing i with
  | nil => rfl
  | cons v items ih =>
    rw [mapTextsOfItems]
    cases i with
    | zero => rfl
    | succ i => rw [List.getElem?_cons_succ, List.getElem?_cons_succ, ih]

theorem length_mapTextsOfItems (f : List String → String → Value) (path : List String)
    (items : List Value) : (mapTextsOfItems f path items).length = items.length := by
  induction items with
  | nil => rfl
  | cons v items ih => rw [mapTextsOfItems, List.length_cons, ih, List.length_cons]

/-- Values that agree still do when each text in them is replaced. -/
theorem agree_mapTexts (f : List String → String → Value) {v w : Value} (h : Agree v w)
    (path : List String) : Agree (mapTexts f path v) (mapTexts f path w) := by
  induction h generalizing path with
  | same v => exact .same _
  | @seq items others hlength _ ih =>
    refine .seq (by rw [length_mapTextsOfItems, length_mapTextsOfItems, hlength])
      fun i v w hv hw => ?_
    rw [getElem?_mapTextsOfItems] at hv hw
    obtain ⟨a, ha, rfl⟩ := Option.map_eq_some_iff.mp hv
    obtain ⟨b, hb, rfl⟩ := Option.map_eq_some_iff.mp hw
    exact ih i a b ha hb path
  | @map entries others hkeys _ ih =>
    refine .map (fun k => ?_) fun k v w hv hw => ?_
    · rw [keys_mapTextsOfEntries, keys_mapTextsOfEntries, hkeys k]
    · rw [get?_mapTextsOfEntries] at hv hw
      obtain ⟨a, ha, rfl⟩ := Option.map_eq_some_iff.mp hv
      obtain ⟨b, hb, rfl⟩ := Option.map_eq_some_iff.mp hw
      exact ih k a b ha hb _

/-- Replacing texts keeps what stands at a place, its own texts replaced. -/
theorem at?_mapTexts (f : List String → String → Value) {place : List String} {v w : Value}
    (h : v.at? place = some w) (path : List String) :
    (mapTexts f path v).at? place = some (mapTexts f (path ++ place) w) := by
  induction place generalizing v path with
  | nil =>
    obtain rfl := Option.some.inj h
    rw [List.append_nil]
    rfl
  | cons key place ih =>
    obtain ⟨u, hu, hrest⟩ := Option.bind_eq_some_iff.mp h
    cases v with
    | map entries =>
      have hkey : Entries.get? (.str key) (mapTextsOfEntries f path entries) =
          some (mapTexts f (path ++ [key]) u) :=
        (get?_mapTextsOfEntries f path entries _).trans (congrArg _ hu)
      rw [mapTexts, at?, member?, hkey, Option.bind_some, ih hrest, List.append_assoc,
        List.singleton_append]
    | _ => cases hu

/-- The path leads to a named schema, or to the schema of a component, or to what one of them is
composed of. -/
def IsPlace (path : List String) : Prop := LeadsToSchema path ∨ ∃ kind, LeadsToContent kind path

theorem expanded_of_place {path : List String} (hplace : IsPlace path) {name : String}
    (h : Expandable path (.str name)) :
    ∃ target, expanded path (.str name) = .reference target := by
  obtain ⟨r, hr⟩ := h (path, name) (List.mem_singleton.mpr rfl)
  rcases expandText_cases hr with ⟨-, hschema, hcontent⟩ | ⟨⟨target, rfl⟩, -⟩
  · rcases hplace with hplace | hplace
    · rw [(isSchemaPlace_joined_iff path).mpr hplace] at hschema
      cases hschema
    · rw [(isComponentPlace_joined_iff path).mpr hplace] at hcontent
      cases hcontent
  · exact ⟨target, replacement_of_ok hr⟩

theorem expanded_of_not_place {path : List String} (hplace : ¬ IsPlace path) (name : String) :
    expanded path (.str name) = .str name := by
  rw [IsPlace, not_or, not_exists] at hplace
  exact replacement_of_ok (expandText_of_neither hplace.1 hplace.2 name)

/-! ## Where the orders differ -/

/-- A text at the place of a name meets a mapping, at the end of a path or below it. -/
inductive Clash : List String → Value → Value → Prop
  /-- A name is put under a mapping that names no reference of its own. -/
  | nameBelow {path : List String} {name : String} {upper : Fields} (hplace : IsPlace path)
      (href : .str "$ref" ∉ Entries.keys upper) : Clash path (.str name) (.map upper)
  /-- A name is put on a mapping that holds more than a reference. -/
  | nameAbove {path : List String} {name : String} {base : Fields} {k : Value}
      (hplace : IsPlace path) (hk : k ∈ Entries.keys base) (hne : k ≠ .str "$ref") :
      Clash path (.map base) (.str name)
  | inside {path : List String} {base upper : Fields} {k v w : Value}
      (hbase : Entries.get? k base = some v) (hupper : Entries.get? k upper = some w)
      (h : Clash (path ++ [k.text]) v w) : Clash path (.map base) (.map upper)

theorem clash_map_iff {path : List String} {base upper : Fields} :
    Clash path (.map base) (.map upper) ↔ ∃ k v w, Entries.get? k base = some v ∧
      Entries.get? k upper = some w ∧ Clash (path ++ [k.text]) v w := by
  constructor
  · intro h
    cases h with
    | inside hbase hupper h => exact ⟨_, _, _, hbase, hupper, h⟩
  · rintro ⟨k, v, w, hbase, hupper, h⟩
    exact .inside hbase hupper h

theorem clash_single_iff {path : List String} {key : String} {v w : Value} :
    Clash path (.single key v) (.single key w) ↔ Clash (path ++ [key]) v w := by
  refine clash_map_iff.trans ⟨?_, fun h => ⟨.str key, v, w, by simp [Entries.get?],
    by simp [Entries.get?], h⟩⟩
  rintro ⟨k, a, b, ha, hb, h⟩
  rw [Entries.get?] at ha hb
  split at ha
  · next hk =>
    rw [if_pos hk] at hb
    obtain rfl := Option.some.inj ha
    obtain rfl := Option.some.inj hb
    rw [← hk] at h
    exact h
  · cases ha

/-- A reference on top of a mapping leaves the other entries of the mapping beside it. -/
theorem agree_merge_reference_iff (base : Fields) (target : String) :
    Agree (.reference target) (merge (some (.map base)) (.reference target)) ↔
      ∀ k ∈ Entries.keys base, k = .str "$ref" := by
  have hmerge : merge (some (.map base)) (.reference target) =
      .map (Entries.put (.str "$ref") (.str target) base) := rfl
  rw [hmerge, reference, single, agree_map_iff]
  constructor
  · rintro ⟨hkeys, -⟩ k hk
    exact List.mem_singleton.mp ((hkeys k).mpr (Entries.mem_keys_put.mpr (.inr hk)))
  · intro hbase
    refine ⟨fun k => ?_, fun k v w hv hw => ?_⟩
    · rw [Entries.mem_keys_put]
      exact ⟨fun hk => .inl (List.mem_singleton.mp hk), fun hk =>
        List.mem_singleton.mpr (hk.elim id (hbase k))⟩
    · have hk : k = .str "$ref" := List.mem_singleton.mp (Entries.mem_keys_of_get? hv)
      subst hk
      rw [Entries.get?_put_self] at hw
      rw [← Option.some.inj hw, ← Option.some.inj hv]
      exact .same _

theorem mem_keys_mergeEntries {k : Value} {base upper : Fields} :
    k ∈ Entries.keys (mergeEntries base upper) ↔
      k ∈ Entries.keys base ∨ k ∈ Entries.keys upper := by
  induction upper generalizing base with
  | nil => simp [mergeEntries, Entries.keys]
  | cons e upper ih =>
    rw [mergeEntries, ih, Entries.mem_keys_put, Entries.keys_cons, List.mem_cons]
    exact ⟨fun h => h.elim (fun h => h.elim (.inr ∘ .inl) .inl) (.inr ∘ .inr),
      fun h => h.elim (.inl ∘ .inr) fun h => h.elim (.inl ∘ .inl) .inr⟩

/-- A mapping on top of a reference keeps the reference unless it names one of its own. -/
theorem agree_merge_on_reference_iff {upper : Fields} (hupper : (Entries.keys upper).Nodup)
    (target : String) :
    Agree (.map upper) (merge (some (.reference target)) (.map upper)) ↔
      .str "$ref" ∈ Entries.keys upper := by
  have hmerge : merge (some (.reference target)) (.map upper) =
      .map (mergeEntries [(.str "$ref", .str target)] upper) := rfl
  rw [hmerge, agree_map_iff]
  constructor
  · rintro ⟨hkeys, -⟩
    exact (hkeys _).mpr (mem_keys_mergeEntries.mpr (.inl List.mem_cons_self))
  · intro href
    refine ⟨fun k => ?_, fun k v w hv hw => ?_⟩
    · rw [mem_keys_mergeEntries]
      refine ⟨.inr, fun hk => hk.elim (fun hk => ?_) id⟩
      rw [List.mem_singleton.mp hk]
      exact href
    · rw [get?_mergeEntries hupper hv] at hw
      -- the text of the reference is no mapping, so whatever is put on it replaces it
      have hreplace : merge (Entries.get? k [(.str "$ref", .str target)]) v = v := by
        rw [Entries.get?]
        split
        · cases v <;> rfl
        · exact merge_none v
      rw [hreplace] at hw
      rw [← Option.some.inj hw]
      exact .same v

/-- A value that is neither a text nor a mapping is none when it is expanded. -/
theorem isMap_expanded {path : List String} {v : Value} (hmap : v.isMap = false)
    (hstr : v.isStr = false) : (expanded path v).isMap = false := by
  cases v with
  | map entries => cases hmap
  | str name => cases hstr
  | _ => rfl

/-- A text on top of a value. -/
theorem agree_expanded_merge_str_iff {path : List String} {base : Value} {name : String}
    (hbase : Expandable path base) (hname : Expandable path (.str name)) :
    Agree (expanded path (merge (some base) (.str name)))
        (merge (some (expanded path base)) (expanded path (.str name))) ↔
      ¬ Clash path base (.str name) := by
  have hmerge : merge (some base) (.str name) = .str name := rfl
  rw [hmerge]
  by_cases hplace : IsPlace path
  · obtain ⟨target, htarget⟩ := expanded_of_place hplace hname
    rw [htarget]
    cases base with
    | map entries =>
      rw [expanded, mapTexts, agree_merge_reference_iff, keys_mapTextsOfEntries]
      constructor
      · intro honly hclash
        cases hclash with
        | nameAbove _ hk hne => exact hne (honly _ hk)
      · intro hclash k hk
        by_contra hne
        exact hclash (.nameAbove hplace hk hne)
    | str other =>
      obtain ⟨first, hfirst⟩ := expanded_of_place hplace hbase
      rw [hfirst]
      refine iff_of_true ?_ fun hclash => by cases hclash
      -- one reference replaces the other
      exact (agree_merge_reference_iff _ target).mpr fun k hk => List.mem_singleton.mp hk
    | _ =>
      rw [merge_of_not_map (isMap_expanded rfl rfl)]
      exact iff_of_true (.same _) fun hclash => by cases hclash
  · rw [expanded_of_not_place hplace]
    refine iff_of_true (.same _) fun hclash => ?_
    cases hclash with
    | nameAbove habove => exact hplace habove

/-- A mapping on top of a value that is no mapping. -/
theorem agree_expanded_merge_map_iff {path : List String} {base : Value} {upper : Fields}
    (hmap : base.isMap = false) (hbase : Expandable path base)
    (hupper : (Entries.keys upper).Nodup) :
    Agree (expanded path (merge (some base) (.map upper)))
        (merge (some (expanded path base)) (expanded path (.map upper))) ↔
      ¬ Clash path base (.map upper) := by
  rw [merge_of_not_map hmap]
  cases base with
  | map entries => cases hmap
  | str name =>
    by_cases hplace : IsPlace path
    · obtain ⟨target, htarget⟩ := expanded_of_place hplace hbase
      rw [htarget, expanded, mapTexts, agree_merge_on_reference_iff, keys_mapTextsOfEntries]
      · constructor
        · intro href hclash
          cases hclash with
          | nameBelow _ hmissing => exact hmissing href
        · intro hclash
          by_contra hmissing
          exact hclash (.nameBelow hplace hmissing)
      · rw [keys_mapTextsOfEntries]
        exact hupper
    · rw [expanded_of_not_place hplace, merge_of_not_map rfl]
      refine iff_of_true (.same _) fun hclash => ?_
      cases hclash with
      | nameBelow hbelow => exact hplace hbelow
  | _ =>
    rw [merge_of_not_map (isMap_expanded rfl rfl)]
    exact iff_of_true (.same _) fun hclash => by cases hclash

/-- At a key that both mappings have the values are merged, before or after they are expanded; any
other key has the same value in both orders. -/
theorem get?_expanded_merge (path : List String) {base upper : Fields}
    (hupper : (Entries.keys upper).Nodup) (k : Value) :
    (∃ v w, Entries.get? k base = some v ∧ Entries.get? k upper = some w ∧
      Entries.get? k (mapTextsOfEntries replacement path (mergeEntries base upper)) =
        some (expanded (path ++ [k.text]) (merge (some v) w)) ∧
      Entries.get? k (mergeEntries (mapTextsOfEntries replacement path base)
          (mapTextsOfEntries replacement path upper)) =
        some (merge (some (expanded (path ++ [k.text]) v)) (expanded (path ++ [k.text]) w))) ∨
    ((Entries.get? k base = none ∨ Entries.get? k upper = none) ∧
      Entries.get? k (mapTextsOfEntries replacement path (mergeEntries base upper)) =
        Entries.get? k (mergeEntries (mapTextsOfEntries replacement path base)
          (mapTextsOfEntries replacement path upper))) := by
  have hupper' : (Entries.keys (mapTextsOfEntries replacement path upper)).Nodup := by
    rwa [keys_mapTextsOfEntries]
  rw [get?_mapTextsOfEntries]
  cases hw : Entries.get? k upper with
  | none =>
    have hmissing : k ∉ Entries.keys upper := Entries.get?_eq_none_iff.mp hw
    have hmissing' : k ∉ Entries.keys (mapTextsOfEntries replacement path upper) := by
      rwa [keys_mapTextsOfEntries]
    refine .inr ⟨.inr rfl, ?_⟩
    rw [get?_mergeEntries_of_not_mem hmissing, get?_mergeEntries_of_not_mem hmissing',
      get?_mapTextsOfEntries]
  | some w =>
    have hw' : Entries.get? k (mapTextsOfEntries replacement path upper) =
        some (expanded (path ++ [k.text]) w) := by
      rw [get?_mapTextsOfEntries, hw]
      rfl
    rw [get?_mergeEntries hupper hw, get?_mergeEntries hupper' hw', get?_mapTextsOfEntries]
    cases hv : Entries.get? k base with
    | none =>
      refine .inr ⟨.inl rfl, ?_⟩
      rw [merge_none, Option.map_none, merge_none]
      rfl
    | some v => exact .inl ⟨v, w, rfl, rfl, rfl, rfl⟩

/-- Expanding a merged value agrees with merging the expanded values exactly where no text at the
place of a name meets a mapping. -/
theorem agree_expanded_merge_iff {upper : Value} (hupper : KeysOnce upper) {path : List String}
    {base : Value} (hb : Expandable path base) (hu : Expandable path upper) :
    Agree (expanded path (merge (some base) upper))
        (merge (some (expanded path base)) (expanded path upper)) ↔ ¬ Clash path base upper := by
  induction hupper generalizing path base with
  | @leaf upper hleaf =>
    cases upper with
    | str name => exact agree_expanded_merge_str_iff hb hu
    | map entries => cases hleaf
    | _ => exact iff_of_true (.same _) fun hclash => by cases hclash
  | @map upper hkeys hvalues ih =>
    cases base with
    | map base =>
      have hvalue (k v w : Value) (hv : Entries.get? k base = some v)
          (hw : Entries.get? k upper = some w) :=
        ih (k, w) (Entries.mem_of_get? hw) (hb.of_get? hv) (hu.of_get? hw)
      rw [clash_map_iff]
      refine agree_map_iff.trans ⟨?_, fun hclash => ⟨fun k => ?_, fun k a b hwhole hparts => ?_⟩⟩
      · rintro ⟨-, hagree⟩ ⟨k, v, w, hv, hw, hclash⟩
        rcases get?_expanded_merge path hkeys k with
          ⟨v', w', hv', hw', hleft, hright⟩ | ⟨hnone, -⟩
        · rw [hv, Option.some.injEq] at hv'
          rw [hw, Option.some.injEq] at hw'
          rw [← hv', ← hw'] at hleft hright
          exact (hvalue k v w hv hw).mp (hagree k _ _ hleft hright) hclash
        · rw [hv, hw] at hnone
          rcases hnone with hnone | hnone <;> cases hnone
      · rw [keys_mapTextsOfEntries, mem_keys_mergeEntries, mem_keys_mergeEntries,
          keys_mapTextsOfEntries, keys_mapTextsOfEntries]
      · rcases get?_expanded_merge path hkeys k with ⟨v, w, hv, hw, hleft, hright⟩ | ⟨-, hsame⟩
        · rw [hleft, Option.some.injEq] at hwhole
          rw [hright, Option.some.injEq] at hparts
          rw [← hwhole, ← hparts]
          exact (hvalue k v w hv hw).mpr fun hinside => hclash ⟨k, v, w, hv, hw, hinside⟩
        · rw [hsame, hparts, Option.some.injEq] at hwhole
          rw [hwhole]
          exact .same _
    | _ => exact agree_expanded_merge_map_iff rfl hb hkeys

end ApiTree.Reference
