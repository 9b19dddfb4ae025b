import ApiTree.Proofs.Value.Agree

/-!
# Values that can be merged in either order

Two values are compatible if wherever keys lead to a value in both, the two are mappings or agree.
Compatible values can be put on top of a third in either order (`Compatible.merge_comm`), and
mappings of which any two are compatible can be merged in any order (`agree_foldl_mergeEntries`).
-/

set_option autoImplicit false

namespace ApiTree.Value

/-- The value that keys lead to through mappings. -/
def follow? (v : Value) : List Value → Option Value
  | [] => some v
  | k :: keys => (v.valueAt? k).bind fun w => w.follow? keys

/-- Wherever keys lead to a value in both, the two are mappings or agree. -/
def Compatible (v w : Value) : Prop :=
  ∀ keys a b, v.follow? keys = some a → w.follow? keys = some b →
    (a.isMap = true ∧ b.isMap = true) ∨ Agree a b

theorem Agree.isMap_eq {v w : Value} (h : Agree v w) : v.isMap = w.isMap := by
  cases h <;> rfl

/-- Mappings agree if at each key both have values that agree or neither has one. -/
theorem agree_of_valueAt? {v w : Value} (hv : v.isMap = true) (hw : w.isMap = true)
    (h : ∀ k, Option.Rel Agree (v.valueAt? k) (w.valueAt? k)) : Agree v w := by
  cases v with
  | map entries =>
    cases w with
    | map others =>
      simp only [valueAt?] at h
      refine .map (fun k => ?_) fun k a b ha hb => ?_
      · have hiff : Entries.get? k entries = none ↔ Entries.get? k others = none := by
          have hk := h k
          revert hk
          cases Entries.get? k entries <;> cases Entries.get? k others <;> simp
        rw [Entries.get?_eq_none_iff, Entries.get?_eq_none_iff] at hiff
        exact not_iff_not.mp hiff
      · have hk := h k
        rw [ha, hb] at hk
        exact Option.rel_some_some.mp hk
    | _ => cases hw
  | _ => cases hv

theorem rel_agree_of_eq {x y : Option Value} (h : x = y) : Option.Rel Agree x y := by
  subst h
  cases x with
  | none => exact .none
  | some v => exact .some (.same v)

theorem isMap_merge_map (base : Option Value) (upper : Fields) :
    (merge base (.map upper)).isMap = true := by
  cases base with
  | none => rw [merge_none]; rfl
  | some base => cases base <;> rfl

theorem merge_leaf {upper : Value} (h : upper.isMap = false) (base : Option Value) :
    merge base upper = upper := by
  cases upper with
  | map entries => cases h
  | _ => rw [merge]; simp

theorem eq_null_of_merge {base : Option Value} {v : Value} (h : merge base v = .null) :
    v = .null := by
  cases v with
  | map entries =>
    have hmap := isMap_merge_map base entries
    rw [h] at hmap
    cases hmap
  | _ => exact (merge_leaf rfl base).symm.trans h

/-! ## Compatible values -/

theorem compatible_refl (v : Value) : Compatible v v := by
  intro keys a b ha hb
  obtain rfl := Option.some.inj (ha.symm.trans hb)
  exact .inr (.same a)

/-- Mappings are compatible if at each key that both have their values are. -/
theorem compatible_map_iff {entries others : Fields} :
    Compatible (.map entries) (.map others) ↔
      ∀ k a b, Entries.get? k entries = some a → Entries.get? k others = some b →
        Compatible a b := by
  constructor
  · intro h k a b ha hb keys c d hc hd
    refine h (k :: keys) c d ?_ ?_
    · rw [follow?, valueAt?, ha, Option.bind_some, hc]
    · rw [follow?, valueAt?, hb, Option.bind_some, hd]
  · intro h keys a b ha hb
    cases keys with
    | nil =>
      obtain rfl := Option.some.inj ha
      obtain rfl := Option.some.inj hb
      exact .inl ⟨rfl, rfl⟩
    | cons k keys =>
      obtain ⟨v, hv, ha⟩ := Option.bind_eq_some_iff.mp ha
      obtain ⟨w, hw, hb⟩ := Option.bind_eq_some_iff.mp hb
      exact h k v w hv hw keys a b ha hb

theorem Compatible.symm {v w : Value} (h : Compatible v w) : Compatible w v :=
  fun keys a b ha hb => (h keys b a hb ha).imp And.symm Agree.symm

/-- Where one of two compatible values is a mapping, the other is one too. -/
theorem Compatible.isMap_eq {v w : Value} (h : Compatible v w) : v.isMap = w.isMap := by
  rcases h [] v w rfl rfl with ⟨hv, hw⟩ | hagree
  · rw [hv, hw]
  · exact hagree.isMap_eq

theorem Compatible.agree {v w : Value} (h : Compatible v w) (hv : v.isMap = false) : Agree v w := by
  rcases h [] v w rfl rfl with ⟨hmap, -⟩ | hagree
  · rw [hv] at hmap
    cases hmap
  · exact hagree

/-- Compatible values can be put on top of a third in either order. -/
theorem Compatible.merge_comm {v w : Value} (h : Compatible v w) (hv : KeysOnce v) (hw : KeysOnce w)
    (base : Option Value) :
    Agree (merge (some (merge base v)) w) (merge (some (merge base w)) v) := by
  induction hv generalizing w base with
  | leaf hleaf =>
    rw [merge_leaf (h.isMap_eq ▸ hleaf), merge_leaf hleaf]
    exact (h.agree hleaf).symm
  | @map entries hkeys hvalues ih =>
    cases w with
    | map others =>
      obtain ⟨hothers, -⟩ := keysOnce_map_iff.mp hw
      refine agree_of_valueAt? (isMap_merge_map _ _) (isMap_merge_map _ _) fun k => ?_
      rw [valueAt?_merge k _ hothers, valueAt?_merge k _ hkeys, Option.bind_some, Option.bind_some,
        valueAt?_merge k base hothers, valueAt?_merge k base hkeys]
      -- what the two orders give at a key depends on which of the two has it
      cases ha : Entries.get? k entries with
      | none =>
        cases hb : Entries.get? k others with
        | none => cases base.bind (·.valueAt? k) <;> simp [Agree.same]
        | some b => exact .some (.same _)
      | some a =>
        cases hb : Entries.get? k others with
        | none => exact .some (.same _)
        | some b =>
          exact .some (ih (k, a) (Entries.mem_of_get? ha)
            (compatible_map_iff.mp h k a b ha hb) (hw.of_get? hb) _)
    | _ => cases h.isMap_eq

/-! ## Many mappings -/

/-- Mappings that agree still do when the same mappings are put on top of them. -/
theorem Agree.foldl_mergeEntries (uppers : List Fields) {entries others : Fields}
    (h : Agree (.map entries) (.map others)) :
    Agree (.map (uppers.foldl Value.mergeEntries entries))
      (.map (uppers.foldl Value.mergeEntries others)) := by
  induction uppers generalizing entries others with
  | nil => exact h
  | cons upper uppers ih => exact ih (h.mergeEntries upper)

/-- Mappings that write their keys once, and of which any two are compatible, can be merged in any
order. -/
theorem agree_foldl_mergeEntries {uppers others : List Fields} (hperm : uppers.Perm others)
    (honce : ∀ upper ∈ uppers, KeysOnce (.map upper))
    (hcompatible : ∀ upper ∈ uppers, ∀ other ∈ uppers, Compatible (.map upper) (.map other))
    (base : Fields) :
    Agree (.map (uppers.foldl mergeEntries base)) (.map (others.foldl mergeEntries base)) := by
  induction hperm generalizing base with
  | nil => exact .same _
  | @cons upper uppers others hperm ih =>
    exact ih (fun v hv => honce v (List.mem_cons_of_mem upper hv))
      (fun v hv w hw => hcompatible v (List.mem_cons_of_mem upper hv) w (List.mem_cons_of_mem upper hw))
      (mergeEntries base upper)
  | swap first second uppers =>
    have hfirst : first ∈ second :: first :: uppers := List.mem_cons_of_mem _ List.mem_cons_self
    have hsecond : second ∈ second :: first :: uppers := List.mem_cons_self
    have hcomm := (hcompatible second hsecond first hfirst).merge_comm (honce second hsecond)
      (honce first hfirst) (some (.map base))
    exact Agree.foldl_mergeEntries uppers hcomm
  | trans hperm _ ih ih' =>
    refine (ih honce hcompatible base).trans (ih' (fun v hv => ?_) (fun v hv w hw => ?_) base)
    · exact honce v (hperm.mem_iff.mpr hv)
    · exact hcompatible v (hperm.mem_iff.mpr hv) w (hperm.mem_iff.mpr hw)

end ApiTree.Value
