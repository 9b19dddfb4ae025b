import ApiTree.Proofs.Value.Merge

/-!
# Values up to the order of keys

Two values agree if they differ in nothing but the order in which mappings write their keys. Merging
keeps agreement below what is put on top (`Agree.merge`). A value writes its keys once if every
mapping does that other mappings lead to; merging keeps that too (`KeysOnce.merge`).
-/

set_option autoImplicit false

namespace ApiTree.Value

/-! ## Agreement -/

/-- Equal but for the order in which mappings write their keys. -/
inductive Agree : Value → Value → Prop
  | same (v : Value) : Agree v v
  | seq {items others : List Value} (hlength : items.length = others.length)
      (hitems : ∀ (i : Nat) (v w : Value), items[i]? = some v → others[i]? = some w → Agree v w) :
      Agree (.seq items) (.seq others)
  | map {entries others : Fields}
      (hkeys : ∀ k, k ∈ Entries.keys entries ↔ k ∈ Entries.keys others)
      (hvalues : ∀ k v w, Entries.get? k entries = some v → Entries.get? k others = some w →
        Agree v w) :
      Agree (.map entries) (.map others)

/-- Mappings agree if they write the same keys and their values agree. -/
theorem agree_map_iff {entries others : Fields} :
    Agree (.map entries) (.map others) ↔
      (∀ k, k ∈ Entries.keys entries ↔ k ∈ Entries.keys others) ∧
        ∀ k v w, Entries.get? k entries = some v → Entries.get? k others = some w → Agree v w := by
  constructor
  · intro h
    cases h with
    | same =>
      refine ⟨fun _ => Iff.rfl, fun k v w hv hw => ?_⟩
      obtain rfl := Option.some.inj (hv.symm.trans hw)
      exact .same v
    | map hkeys hvalues => exact ⟨hkeys, hvalues⟩
  · rintro ⟨hkeys, hvalues⟩
    exact .map hkeys hvalues

theorem agree_single_iff {key : String} {v w : Value} :
    Agree (.single key v) (.single key w) ↔ Agree v w := by
  refine agree_map_iff.trans ⟨fun h => h.2 (.str key) v w (by simp [Entries.get?])
    (by simp [Entries.get?]), fun h => ⟨fun _ => Iff.rfl, fun k a b ha hb => ?_⟩⟩
  rw [Entries.get?] at ha hb
  split at ha
  · next hk =>
    rw [if_pos hk] at hb
    rw [← Option.some.inj ha, ← Option.some.inj hb]
    exact h
  · cases ha

theorem Agree.symm {v w : Value} (h : Agree v w) : Agree w v := by
  induction h with
  | same v => exact .same v
  | seq hlength _ ih => exact .seq hlength.symm fun i v w hv hw => ih i w v hw hv
  | map hkeys _ ih => exact .map (fun k => (hkeys k).symm) fun k v w hv hw => ih k w v hw hv

theorem Agree.trans {u v w : Value} (huv : Agree u v) (hvw : Agree v w) : Agree u w := by
  induction huv generalizing w with
  | same v => exact hvw
  | seq hlength hitems ih =>
    cases hvw with
    | same => exact .seq hlength hitems
    | seq hlength' hitems' =>
      refine .seq (hlength.trans hlength') fun i a c ha hc => ?_
      -- the element between the two is there because the lengths are equal
      obtain ⟨hi, -⟩ := List.getElem?_eq_some_iff.mp ha
      have hb := List.getElem?_eq_getElem (hlength ▸ hi)
      exact ih i a _ ha hb (hitems' i _ c hb hc)
  | map hkeys hvalues ih =>
    cases hvw with
    | same => exact .map hkeys hvalues
    | map hkeys' hvalues' =>
      refine .map (fun k => (hkeys k).trans (hkeys' k)) fun k a c ha hc => ?_
      have hmem := (hkeys k).mp (Entries.mem_keys_of_get? ha)
      obtain ⟨b, hb⟩ := Entries.exists_get?_of_mem_keys hmem
      exact ih k a b ha hb (hvalues' k b c hb hc)

theorem Agree.put {entries others : Fields} (h : Agree (.map entries) (.map others)) (k : Value)
    {v w : Value} (hvw : Agree v w) :
    Agree (.map (Entries.put k v entries)) (.map (Entries.put k w others)) := by
  obtain ⟨hkeys, hvalues⟩ := agree_map_iff.mp h
  refine .map (fun l => ?_) fun l a b ha hb => ?_
  · rw [Entries.mem_keys_put, Entries.mem_keys_put, hkeys l]
  · rw [Entries.get?_put] at ha hb
    split at ha
    · next hkl =>
      rw [if_pos hkl] at hb
      rw [← Option.some.inj ha, ← Option.some.inj hb]
      exact hvw
    · next hkl =>
      rw [if_neg hkl] at hb
      exact hvalues l a b ha hb

mutual

/-- What is put on top of values that agree gives values that agree. -/
theorem Agree.merge : ∀ (upper : Value) {v w : Value}, Agree v w →
    Agree (Value.merge (some v) upper) (Value.merge (some w) upper)
  | .map upper, _, _, h => by
    cases h with
    | same => exact .same _
    | seq => exact .same _
    | map hkeys hvalues => exact Agree.mergeEntries upper (.map hkeys hvalues)
  | .null, _, _, _ | .bool _, _, _, _ | .int _, _, _, _ | .float _, _, _, _ | .str _, _, _, _
  | .date _, _, _, _ | .timestamp _, _, _, _ | .bytes _, _, _, _ | .seq _, _, _, _
  | .set _, _, _, _ | .pair _ _, _, _, _ => .same _

theorem Agree.mergeEntries : ∀ (upper : List (Value × Value)) {entries others : Fields},
    Agree (.map entries) (.map others) →
      Agree (.map (Value.mergeEntries entries upper)) (.map (Value.mergeEntries others upper))
  | [], _, _, h => h
  | (k, u) :: upper, entries, others, h => by
    refine Agree.mergeEntries upper (h.put k ?_)
    obtain ⟨hkeys, hvalues⟩ := agree_map_iff.mp h
    -- the key is in both or in neither
    cases hv : Entries.get? k entries with
    | none =>
      have hw : Entries.get? k others = none := by
        rw [Entries.get?_eq_none_iff, ← hkeys k]
        exact Entries.get?_eq_none_iff.mp hv
      rw [hw]
      exact .same _
    | some v =>
      obtain ⟨w, hw⟩ :=
        Entries.exists_get?_of_mem_keys ((hkeys k).mp (Entries.mem_keys_of_get? hv))
      rw [hw]
      exact Agree.merge u (hvalues k v w hv hw)

end

/-! ## Keys that are written once -/

/-- Each mapping that mappings lead to writes each of its keys once. -/
inductive KeysOnce : Value → Prop
  | map {entries : Fields} (hkeys : (Entries.keys entries).Nodup)
      (hvalues : ∀ e ∈ entries, KeysOnce e.2) : KeysOnce (.map entries)
  | leaf {v : Value} (h : v.isMap = false) : KeysOnce v

theorem keysOnce_map_iff {entries : Fields} :
    KeysOnce (.map entries) ↔ (Entries.keys entries).Nodup ∧ ∀ e ∈ entries, KeysOnce e.2 := by
  constructor
  · intro h
    cases h with
    | map hkeys hvalues => exact ⟨hkeys, hvalues⟩
    | leaf h => cases h
  · rintro ⟨hkeys, hvalues⟩
    exact .map hkeys hvalues

theorem KeysOnce.nodup {entries : Fields} (h : KeysOnce (.map entries)) :
    (Entries.keys entries).Nodup :=
  (keysOnce_map_iff.mp h).1

theorem keysOnce_nil : KeysOnce (.map []) := .map List.nodup_nil fun _ h => by cases h

theorem KeysOnce.single {v : Value} (h : KeysOnce v) (key : String) : KeysOnce (.single key v) := by
  refine .map (List.nodup_singleton _) fun e he => ?_
  rw [List.mem_singleton.mp he]
  exact h

theorem KeysOnce.of_get? {entries : Fields} (h : KeysOnce (.map entries)) {k v : Value}
    (hv : Entries.get? k entries = some v) : KeysOnce v :=
  (keysOnce_map_iff.mp h).2 (k, v) (Entries.mem_of_get? hv)

theorem KeysOnce.leadsOnce {place : List String} {v w : Value} (h : KeysOnce v)
    (hw : v.at? place = some w) : LeadsOnce v place := by
  induction place generalizing v with
  | nil => trivial
  | cons key place ih =>
    obtain ⟨u, hu, hrest⟩ := Option.bind_eq_some_iff.mp hw
    cases v with
    | map entries =>
      refine ⟨⟨entries, rfl, (keysOnce_map_iff.mp h).1⟩, fun x hx => ?_⟩
      obtain rfl := Option.some.inj (hu.symm.trans hx)
      exact ih (h.of_get? hu) hrest
    | _ => cases hu

theorem KeysOnce.put {entries : Fields} (h : KeysOnce (.map entries)) (k : Value) {v : Value}
    (hv : KeysOnce v) : KeysOnce (.map (Entries.put k v entries)) := by
  obtain ⟨hkeys, hvalues⟩ := keysOnce_map_iff.mp h
  refine .map (Entries.nodup_keys_put k v hkeys) fun e he => ?_
  rcases Entries.mem_put he with rfl | he
  · exact hv
  · exact hvalues e he

/-- Fewer entries write fewer keys. -/
theorem KeysOnce.sublist {entries fewer : Fields} (h : KeysOnce (.map entries))
    (hfewer : fewer.Sublist entries) : KeysOnce (.map fewer) := by
  obtain ⟨hkeys, hvalues⟩ := keysOnce_map_iff.mp h
  exact .map (hkeys.sublist (hfewer.map Prod.fst)) fun e he => hvalues e (hfewer.subset he)

theorem KeysOnce.pick {entries : Fields} (h : KeysOnce (.map entries)) {ks : List Value}
    (hks : ks.Nodup) : KeysOnce (.map (Entries.pick ks entries)) :=
  .map (hks.sublist (Entries.keys_pick_sublist ks entries)) fun _ he =>
    h.of_get? (Entries.get?_of_mem_pick he)

/-- Writing entries from left to right writes each key once. -/
theorem KeysOnce.putAll {new entries : Fields} (h : KeysOnce (.map entries))
    (hnew : ∀ e ∈ new, KeysOnce e.2) : KeysOnce (.map (Entries.putAll new entries)) := by
  induction new generalizing entries with
  | nil => exact h
  | cons e new ih =>
    rw [List.forall_mem_cons] at hnew
    exact ih (h.put e.1 hnew.1) hnew.2

mutual

/-- Merging keeps it that keys are written once. -/
theorem KeysOnce.merge : ∀ (upper : Value) {base : Option Value}, (∀ v ∈ base, KeysOnce v) →
    KeysOnce upper → KeysOnce (Value.merge base upper)
  | .map _, none, _, hupper => hupper
  | .map upper, some base, hbase, hupper => by
    cases base with
    | map entries =>
      exact KeysOnce.mergeEntries upper (hbase _ rfl) (keysOnce_map_iff.mp hupper).2
    | _ => exact hupper
  | .null, _, _, h | .bool _, _, _, h | .int _, _, _, h | .float _, _, _, h | .str _, _, _, h
  | .date _, _, _, h | .timestamp _, _, _, h | .bytes _, _, _, h | .seq _, _, _, h
  | .set _, _, _, h | .pair _ _, _, _, h => h

theorem KeysOnce.mergeEntries : ∀ (upper : List (Value × Value)) {entries : Fields},
    KeysOnce (.map entries) → (∀ e ∈ upper, KeysOnce e.2) →
      KeysOnce (.map (Value.mergeEntries entries upper))
  | [], _, h, _ => h
  | (k, u) :: upper, entries, h, hupper => by
    rw [List.forall_mem_cons] at hupper
    refine KeysOnce.mergeEntries upper (h.put k (KeysOnce.merge u (fun v hv => ?_) hupper.1))
      hupper.2
    exact h.of_get? hv

end

theorem keysOnce_mergeEntries {base upper : Fields} (hbase : KeysOnce (.map base))
    (hupper : KeysOnce (.map upper)) : KeysOnce (.map (Value.mergeEntries base upper)) :=
  KeysOnce.mergeEntries upper hbase (keysOnce_map_iff.mp hupper).2

mutual

/-- Whether a value writes its keys once. -/
def writesOnce : Value → Bool
  | .map entries => decide (Entries.keys entries).Nodup && entriesWriteOnce entries
  | _ => true

/-- Whether the value of each entry writes its keys once. -/
def entriesWriteOnce : List (Value × Value) → Bool
  | [] => true
  | (_, v) :: entries => writesOnce v && entriesWriteOnce entries

end

mutual

theorem keysOnce_of_writesOnce : ∀ {v : Value}, writesOnce v = true → KeysOnce v
  | .map _, h => by
    rw [writesOnce, Bool.and_eq_true, decide_eq_true_eq] at h
    exact .map h.1 (keysOnce_of_entriesWriteOnce h.2)
  | .null, _ | .bool _, _ | .int _, _ | .float _, _ | .str _, _ | .date _, _ | .timestamp _, _
  | .bytes _, _ | .seq _, _ | .set _, _ | .pair _ _, _ => .leaf rfl

theorem keysOnce_of_entriesWriteOnce : ∀ {entries : List (Value × Value)},
    entriesWriteOnce entries = true → ∀ e ∈ entries, KeysOnce e.2
  | [], _, _, he => by cases he
  | (_, v) :: entries, h, e, he => by
    rw [entriesWriteOnce, Bool.and_eq_true] at h
    rcases List.mem_cons.mp he with rfl | he
    · exact keysOnce_of_writesOnce h.1
    · exact keysOnce_of_entriesWriteOnce h.2 e he

end

theorem entriesWriteOnce_iff {entries : Fields} :
    entriesWriteOnce entries = true ↔ ∀ e ∈ entries, writesOnce e.2 = true := by
  induction entries with
  | nil => simp [entriesWriteOnce]
  | cons e entries ih =>
    rw [entriesWriteOnce, Bool.and_eq_true, ih, List.forall_mem_cons]

theorem KeysOnce.writesOnce {v : Value} (h : KeysOnce v) : Value.writesOnce v = true := by
  induction h with
  | @map entries hkeys _ ih =>
    rw [Value.writesOnce, Bool.and_eq_true, decide_eq_true_eq, entriesWriteOnce_iff]
    exact ⟨hkeys, ih⟩
  | @leaf v h =>
    cases v with
    | map entries => cases h
    | _ => rfl

instance (v : Value) : Decidable (KeysOnce v) :=
  decidable_of_iff (writesOnce v = true) ⟨keysOnce_of_writesOnce, KeysOnce.writesOnce⟩

end ApiTree.Value
