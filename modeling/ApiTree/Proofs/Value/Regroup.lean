import ApiTree.Proofs.Value.Follow

/-!
# Merging in groups

Mappings that are merged in turn may be merged in groups (`merge_assoc`), unless one in the middle
has a leaf where one before it and one after it have mappings: merged first, the leaf cuts off what
was below it, while a group that starts with it has a mapping there, which keeps what was below.
Merging a mapping once more changes nothing (`merge_self`).
-/

set_option autoImplicit false

namespace ApiTree.Value

/-! ## Merged mappings -/

/-- At a key a merged mapping has the value of the base with that of the other on top. -/
theorem get?_mergeEntries_eq (k : Value) (base : Fields) {upper : Fields}
    (hupper : (Entries.keys upper).Nodup) :
    Entries.get? k (mergeEntries base upper) =
      match Entries.get? k upper with
      | some v => some (merge (Entries.get? k base) v)
      | none => Entries.get? k base :=
  valueAt?_merge k (some (.map base)) hupper

/-- The keys of three mappings come in one order, however the mappings are grouped. -/
theorem keys_mergeEntries_assoc {lower middle upper : Fields} (hmiddle : KeysOnce (.map middle))
    (hupper : KeysOnce (.map upper)) :
    Entries.keys (mergeEntries (mergeEntries lower middle) upper) =
      Entries.keys (mergeEntries lower (mergeEntries middle upper)) := by
  rw [keys_mergeEntries hupper.nodup, keys_mergeEntries hmiddle.nodup,
    keys_mergeEntries (keysOnce_mergeEntries hmiddle hupper).nodup,
    keys_mergeEntries hupper.nodup, List.filter_append, List.filter_filter, List.append_assoc]
  -- a key of the last mapping is new to both others in either order
  refine congrArg _ (congrArg _ (List.filter_congr fun k _ => ?_))
  rw [← Bool.decide_and, decide_eq_decide]
  simp only [List.mem_append, List.mem_filter, decide_eq_true_eq]
  tauto

/-! ## Leaves between mappings -/

/-- Keys lead to a leaf of the second value where the first and the third have mappings. -/
def Severs (a b c : Value) : Prop :=
  ∃ keys lower leaf upper, a.follow? keys = some (.map lower) ∧ b.follow? keys = some leaf ∧
    leaf.isMap = false ∧ c.follow? keys = some (.map upper)

/-- A mapping severs mappings where it does so at one of their keys. -/
theorem severs_map_iff {lower middle upper : Fields} :
    Severs (.map lower) (.map middle) (.map upper) ↔
      ∃ k u v w, Entries.get? k lower = some u ∧ Entries.get? k middle = some v ∧
        Entries.get? k upper = some w ∧ Severs u v w := by
  constructor
  · rintro ⟨keys, a, leaf, c, ha, hleaf, hnot, hc⟩
    cases keys with
    | nil =>
      obtain rfl := Option.some.inj hleaf
      cases hnot
    | cons k keys =>
      obtain ⟨u, hu, ha⟩ := Option.bind_eq_some_iff.mp ha
      obtain ⟨v, hv, hleaf⟩ := Option.bind_eq_some_iff.mp hleaf
      obtain ⟨w, hw, hc⟩ := Option.bind_eq_some_iff.mp hc
      exact ⟨k, u, v, w, hu, hv, hw, keys, a, leaf, c, ha, hleaf, hnot, hc⟩
  · rintro ⟨k, u, v, w, hu, hv, hw, keys, a, leaf, c, ha, hleaf, hnot, hc⟩
    refine ⟨k :: keys, a, leaf, c, ?_, ?_, hnot, ?_⟩
    · rw [follow?, valueAt?, hu, Option.bind_some, ha]
    · rw [follow?, valueAt?, hv, Option.bind_some, hleaf]
    · rw [follow?, valueAt?, hw, Option.bind_some, hc]

/-- Nothing of a leaf can be cut off. -/
theorem not_severs_of_not_map {a : Value} (h : a.isMap = false) (b c : Value) :
    ¬ Severs a b c := by
  rintro ⟨keys, lower, -, -, ha, -⟩
  cases keys with
  | nil =>
    obtain rfl := Option.some.inj ha
    cases h
  | cons k keys =>
    rw [follow?_of_not_map h (List.cons_ne_nil k keys)] at ha
    cases ha

/-- A value does not sever another from itself. -/
theorem not_severs_self (a b : Value) : ¬ Severs a b b := by
  rintro ⟨keys, lower, leaf, upper, -, hleaf, hnot, hupper⟩
  obtain rfl := Option.some.inj (hleaf.symm.trans hupper)
  cases hnot

/-! ## The laws of merging -/

/-- Values can be merged in either grouping if the one in the middle does not sever the others. -/
theorem merge_assoc {a b c : Value} (ha : KeysOnce a) (hb : KeysOnce b) (hc : KeysOnce c)
    (h : ¬ Severs a b c) :
    merge (some (merge (some a) b)) c = merge (some a) (merge (some b) c) := by
  induction hc generalizing a b with
  | leaf hleaf => rw [merge_leaf hleaf, merge_leaf hleaf, merge_leaf hleaf]
  | @map upper hkeys hvalues ih =>
    have hupper : KeysOnce (.map upper) := .map hkeys hvalues
    cases b with
    | map middle =>
      cases a with
      | map lower =>
        refine congrArg Value.map (Entries.eq_of_keys_of_get?
          (keysOnce_mergeEntries (keysOnce_mergeEntries ha hb) hupper).nodup
          (keys_mergeEntries_assoc hb hupper) fun k => ?_)
        rw [get?_mergeEntries_eq k _ hkeys, get?_mergeEntries_eq k _ hb.nodup,
          get?_mergeEntries_eq k _ (keysOnce_mergeEntries hb hupper).nodup,
          get?_mergeEntries_eq k _ hkeys]
        -- the grouping matters only at a key that all three have
        cases hw : Entries.get? k upper with
        | none => rfl
        | some w =>
          cases hv : Entries.get? k middle with
          | none => simp only [merge_none]
          | some v =>
            cases hu : Entries.get? k lower with
            | none => simp only [merge_none]
            | some u =>
              exact congrArg some (ih (k, w) (Entries.mem_of_get? hw) (ha.of_get? hu)
                (hb.of_get? hv) fun hk => h (severs_map_iff.mpr ⟨k, u, v, w, hu, hv, hw, hk⟩))
      | _ => rfl
    | _ =>
      -- a leaf in the middle hides no mapping, as the first value is none either
      cases a with
      | map lower => exact absurd ⟨[], lower, _, upper, rfl, rfl, rfl, rfl⟩ h
      | _ => rfl

theorem merge_self {a : Value} (ha : KeysOnce a) : merge (some a) a = a := by
  induction ha with
  | leaf hleaf => exact merge_leaf hleaf _
  | @map entries hkeys hvalues ih =>
    have hself : Entries.keys (mergeEntries entries entries) = Entries.keys entries := by
      rw [keys_mergeEntries hkeys, List.filter_eq_nil_iff.mpr, List.append_nil]
      intro k hk
      simp [hk]
    refine congrArg Value.map (Entries.eq_of_keys_of_get? (hself ▸ hkeys) hself fun k => ?_)
    rw [get?_mergeEntries_eq k _ hkeys]
    cases hv : Entries.get? k entries with
    | none => rfl
    | some v => exact congrArg some (ih (k, v) (Entries.mem_of_get? hv))

theorem nil_mergeEntries {entries : Fields} (h : (Entries.keys entries).Nodup) :
    mergeEntries [] entries = entries := by
  have hkeys : Entries.keys (mergeEntries [] entries) = Entries.keys entries := by
    rw [keys_mergeEntries h]
    simp [Entries.keys]
  refine Entries.eq_of_keys_of_get? (hkeys ▸ h) hkeys fun k => ?_
  rw [get?_mergeEntries_eq k _ h]
  cases Entries.get? k entries with
  | none => rfl
  | some v => exact congrArg some (merge_none v)

/-- Merging can be regrouped unless the mapping in the middle severs the others, and repeated. -/
theorem mergeEntries_regroup {lower middle upper : Fields} (hlower : KeysOnce (.map lower))
    (hmiddle : KeysOnce (.map middle)) (hupper : KeysOnce (.map upper)) :
    (¬ Severs (.map lower) (.map middle) (.map upper) →
      mergeEntries (mergeEntries lower middle) upper =
        mergeEntries lower (mergeEntries middle upper)) ∧
    mergeEntries (mergeEntries lower upper) upper = mergeEntries lower upper ∧
    mergeEntries lower lower = lower ∧ mergeEntries [] lower = lower ∧
    mergeEntries lower [] = lower := by
  have hself : mergeEntries upper upper = upper := Value.map.inj (merge_self hupper)
  refine ⟨fun h => Value.map.inj (merge_assoc hlower hmiddle hupper h), ?_,
    Value.map.inj (merge_self hlower), nil_mergeEntries hlower.nodup, rfl⟩
  calc mergeEntries (mergeEntries lower upper) upper
      = mergeEntries lower (mergeEntries upper upper) :=
        Value.map.inj (merge_assoc hlower hupper hupper (not_severs_self _ _))
    _ = mergeEntries lower upper := by rw [hself]

/-- A third layer, which leaves alone what the second replaces by a leaf. -/
def topLayer : Fields :=
  [(.str "get", .map [(.str "id", .int 5)]), (.str "post", .map [(.str "id", .int 6)]),
    (.str "patch", .map [(.str "id", .int 7)]), (.str "put", .null)]

theorem mergeEntries_regroup_layers :
    KeysOnce (.map lowerLayer) ∧ KeysOnce (.map upperLayer) ∧ KeysOnce (.map topLayer) ∧
    ¬ Severs (.map lowerLayer) (.map upperLayer) (.map topLayer) ∧
    mergeEntries (mergeEntries lowerLayer upperLayer) topLayer =
      mergeEntries lowerLayer (mergeEntries upperLayer topLayer) ∧
    mergeEntries (mergeEntries lowerLayer topLayer) topLayer = mergeEntries lowerLayer topLayer ∧
    mergeEntries lowerLayer lowerLayer = lowerLayer ∧ mergeEntries [] lowerLayer = lowerLayer ∧
    mergeEntries lowerLayer [] = lowerLayer := by
  have hlower : KeysOnce (.map lowerLayer) := by decide
  have hupper : KeysOnce (.map upperLayer) := by decide
  have htop : KeysOnce (.map topLayer) := by decide
  have hopen : ¬ Severs (.map lowerLayer) (.map upperLayer) (.map topLayer) := by
    intro h
    obtain ⟨k, u, v, w, hu, hv, hw, h⟩ := severs_map_iff.mp h
    have hk : k = .str "get" ∨ k = .str "put" ∨ k = .str "post" ∨ k = .str "head" := by
      simpa [lowerLayer, Entries.keys] using Entries.mem_keys_of_get? hu
    rcases hk with rfl | rfl | rfl | rfl
    · -- all three have a mapping there, without a key in common
      obtain rfl := Option.some.inj hu
      obtain rfl := Option.some.inj hv
      obtain rfl := Option.some.inj hw
      obtain ⟨l, _, _, _, -, hsecond, hthird, -⟩ := severs_map_iff.mp h
      have hl : l = .str "name" ∨ l = .str "tags" := by
        simpa [Entries.keys] using Entries.mem_keys_of_get? hsecond
      rcases hl with rfl | rfl <;> cases hthird
    · cases hv
    · obtain rfl := Option.some.inj hu
      exact not_severs_of_not_map rfl v w h
    · cases hw
  obtain ⟨hassoc, hlaws⟩ := mergeEntries_regroup hlower hupper htop
  exact ⟨hlower, hupper, htop, hopen, hassoc hopen, hlaws⟩

/-- The leaf cuts off the first mapping only if it is merged with that one first. -/
example :
    mergeEntries (mergeEntries [(.str "get", .map [(.str "id", .int 1)])] [(.str "get", .null)])
        [(.str "get", .map [])] = [(.str "get", .map [])] ∧
    mergeEntries [(.str "get", .map [(.str "id", .int 1)])]
        (mergeEntries [(.str "get", .null)] [(.str "get", .map [])]) =
      [(.str "get", .map [(.str "id", .int 1)])] :=
  ⟨rfl, rfl⟩

end ApiTree.Value
