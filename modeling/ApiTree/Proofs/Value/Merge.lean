import ApiTree.Proofs.Entries
import ApiTree.Value.Merge

/-!
# Places in merged values

A place of a value is a list of keys that lead to it. Where what is put on top is a mapping that
writes each key once as far as the place leads, a merged value has at the place what was there with
what is put on top of it.
-/

set_option autoImplicit false

namespace ApiTree.Value

/-- The value at a place, if each key leads to one. -/
def at? (v : Value) : List String → Option Value
  | [] => some v
  | key :: place => (v.member? key).bind fun w => w.at? place

theorem at?_append (v : Value) (place rest : List String) :
    v.at? (place ++ rest) = (v.at? place).bind (·.at? rest) := by
  induction place generalizing v with
  | nil => rfl
  | cons key place ih =>
    rw [List.cons_append, at?, at?, Option.bind_assoc]
    exact congrArg _ (funext ih)

theorem at?_single (key : String) (v : Value) (place : List String) :
    (single key v).at? (key :: place) = v.at? place := by
  simp [at?, member?, single, Entries.get?]

/-- As far as the place leads there are mappings that write each key once. -/
def LeadsOnce : Value → List String → Prop
  | _, [] => True
  | v, key :: place =>
    (∃ entries, v = .map entries ∧ (Entries.keys entries).Nodup) ∧
      ∀ w, v.member? key = some w → LeadsOnce w place

theorem get?_mergeEntries_of_not_mem {key : Value} {base upper : List (Value × Value)}
    (h : key ∉ Entries.keys upper) :
    Entries.get? key (mergeEntries base upper) = Entries.get? key base := by
  induction upper generalizing base with
  | nil => rw [mergeEntries]
  | cons e upper ih =>
    rw [Entries.keys_cons, List.mem_cons, not_or] at h
    rw [mergeEntries, ih h.2, Entries.get?_put_of_ne (Ne.symm h.1)]

theorem get?_mergeEntries {key : Value} {v : Value} {base upper : List (Value × Value)}
    (hupper : (Entries.keys upper).Nodup) (h : Entries.get? key upper = some v) :
    Entries.get? key (mergeEntries base upper) = some (merge (Entries.get? key base) v) := by
  induction upper generalizing base with
  | nil => cases h
  | cons e upper ih =>
    rw [Entries.keys_cons, List.nodup_cons] at hupper
    rw [Entries.get?] at h
    rw [mergeEntries]
    split at h
    · next hkey =>
      rw [hkey] at hupper
      rw [get?_mergeEntries_of_not_mem hupper.1, hkey, Entries.get?_put_self, Option.some.inj h]
    · next hkey => rw [ih hupper.2 h, Entries.get?_put_of_ne hkey]

theorem merge_none (v : Value) : merge none v = v := by
  cases v <;> rw [merge] <;> simp

theorem merge_of_not_map {base : Value} (h : base.isMap = false) (upper : Value) :
    merge (some base) upper = upper := by
  cases upper with
  | map entries =>
    cases base with
    | map entries => cases h
    | _ => rfl
  | _ => rfl

/-- The value at a key, in a mapping that has it. -/
def valueAt? (v : Value) (k : Value) : Option Value :=
  match v with
  | .map entries => Entries.get? k entries
  | _ => none

/-- At a key a merged mapping has the value of the base with that of the other on top. -/
theorem valueAt?_merge (k : Value) (base : Option Value) {upper : Fields}
    (hupper : (Entries.keys upper).Nodup) :
    (merge base (.map upper)).valueAt? k =
      match Entries.get? k upper with
      | some v => some (merge (base.bind (·.valueAt? k)) v)
      | none => base.bind (·.valueAt? k) := by
  -- only a mapping keeps its entries below what is put on top
  have hreplace (h : merge base (.map upper) = .map upper) (hbase : base.bind (·.valueAt? k) = none) :
      (merge base (.map upper)).valueAt? k = match Entries.get? k upper with
        | some v => some (merge (base.bind (·.valueAt? k)) v)
        | none => base.bind (·.valueAt? k) := by
    rw [h, hbase, valueAt?]
    cases Entries.get? k upper with
    | some v => exact congrArg some (merge_none v).symm
    | none => rfl
  rcases base with - | base
  · exact hreplace (merge_none _) rfl
  · cases base with
    | map entries =>
      rw [merge]
      cases hkey : Entries.get? k upper with
      | some v => exact get?_mergeEntries hupper hkey
      | none => exact get?_mergeEntries_of_not_mem (Entries.get?_eq_none_iff.mp hkey)
    | _ => exact hreplace (by simp only [merge]) rfl

/-- A member of a merged mapping is the member of the base with that of the other on top. -/
theorem member?_merge {key : String} (base : Option Value) {upper : Fields}
    (hupper : (Entries.keys upper).Nodup) :
    (merge base (.map upper)).member? key =
      match (Value.map upper).member? key with
      | some v => some (merge (base.bind (·.member? key)) v)
      | none => base.bind (·.member? key) := by
  have hentry : ∀ v : Value, v.member? key = v.valueAt? (.str key) := fun v => by cases v <;> rfl
  simp only [hentry]
  exact valueAt?_merge (.str key) base hupper

/-- At a place of what is put on top a merged value has what was there with that on top of it. -/
theorem at?_merge {place : List String} (base : Option Value) {upper : Value}
    (hupper : LeadsOnce upper place) :
    (merge base upper).at? place =
      match upper.at? place with
      | some v => some (merge (base.bind (·.at? place)) v)
      | none => base.bind (·.at? place) := by
  induction place generalizing base upper with
  | nil => cases base <;> rfl
  | cons key place ih =>
    obtain ⟨⟨entries, rfl, honce⟩, hrest⟩ := hupper
    rw [at?, member?_merge base honce, at?]
    cases hkey : (Value.map entries).member? key with
    | none => cases base <;> rfl
    | some w =>
      simp only [Option.bind_some]
      rw [ih _ (hrest w hkey)]
      cases base <;> rfl

end ApiTree.Value
