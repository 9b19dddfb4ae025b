import ApiTree.Proofs.Value.Compatible

/-!
# What merged mappings hold at the end of a path

Keys lead through mappings to a value, or to none. Where they lead to a value of what is put on top,
a merged mapping has this value on top of what was there (`follow?_merge`). Where they do not, it
has what was there (`follow?_merge_of_open`), unless they meet a leaf of what is put on top on their
way: that leaf replaces all that was below it (`follow?_merge_of_stops`).
-/

set_option autoImplicit false

namespace ApiTree.Value

/-! ## Paths -/

theorem follow?_append (v : Value) (keys rest : List Value) :
    v.follow? (keys ++ rest) = (v.follow? keys).bind (·.follow? rest) := by
  induction keys generalizing v with
  | nil => rfl
  | cons k keys ih =>
    rw [List.cons_append, follow?, follow?, Option.bind_assoc]
    exact congrArg _ (funext ih)

/-- A leaf has nothing below it. -/
theorem follow?_of_not_map {v : Value} (h : v.isMap = false) {keys : List Value} (hne : keys ≠ []) :
    v.follow? keys = none := by
  cases keys with
  | nil => exact absurd rfl hne
  | cons k keys =>
    cases v with
    | map entries => cases h
    | _ => rfl

/-- Keys lead to values that write their keys once too. -/
theorem KeysOnce.of_follow? {v : Value} (h : KeysOnce v) {keys : List Value} {w : Value}
    (hw : v.follow? keys = some w) : KeysOnce w := by
  induction keys generalizing v with
  | nil => exact Option.some.inj hw ▸ h
  | cons k keys ih =>
    obtain ⟨u, hu, hrest⟩ := Option.bind_eq_some_iff.mp hw
    cases v with
    | map entries => exact ih (h.of_get? hu) hrest
    | _ => cases hu

/-- The keys meet a leaf of the value before their end. -/
def StopsBefore (v : Value) (keys : List Value) : Prop :=
  ∃ start leaf, start <+: keys ∧ start ≠ keys ∧ v.follow? start = some leaf ∧ leaf.isMap = false

theorem stopsBefore_of_not_map {v : Value} (h : v.isMap = false) (k : Value) (keys : List Value) :
    StopsBefore v (k :: keys) :=
  ⟨[], v, List.nil_prefix, (List.cons_ne_nil k keys).symm, rfl, h⟩

/-- In a mapping the keys meet a leaf if they lead on and do from there. -/
theorem stopsBefore_map_iff {entries : Fields} {k : Value} {keys : List Value} :
    StopsBefore (.map entries) (k :: keys) ↔
      ∃ v, Entries.get? k entries = some v ∧ StopsBefore v keys := by
  constructor
  · rintro ⟨start, leaf, hstart, hne, hleaf, hnot⟩
    cases start with
    | nil =>
      obtain rfl := Option.some.inj hleaf
      cases hnot
    | cons l start =>
      obtain ⟨rfl, hrest⟩ := List.cons_prefix_cons.mp hstart
      obtain ⟨v, hv, hleaf⟩ := Option.bind_eq_some_iff.mp hleaf
      exact ⟨v, hv, start, leaf, hrest, fun heq => hne (congrArg _ heq), hleaf, hnot⟩
  · rintro ⟨v, hv, start, leaf, hstart, hne, hleaf, hnot⟩
    refine ⟨k :: start, leaf, (List.prefix_cons_inj k).mpr hstart, fun heq => hne ?_, ?_, hnot⟩
    · exact (List.cons.inj heq).2
    · rw [follow?, valueAt?, hv, Option.bind_some, hleaf]

/-! ## Merging along a path -/

/-- One key into a merged mapping: what is put on top leads on where it has the key. -/
theorem follow?_merge_cons {upper : Fields} (hupper : (Entries.keys upper).Nodup)
    (base : Option Value) (k : Value) (keys : List Value) :
    (merge base (.map upper)).follow? (k :: keys) =
      match Entries.get? k upper with
      | some v => (merge (base.bind (·.valueAt? k)) v).follow? keys
      | none => base.bind (·.follow? (k :: keys)) := by
  rw [follow?, valueAt?_merge k base hupper]
  cases Entries.get? k upper with
  | some v => rfl
  | none => cases base <;> rfl

/-- Where what is put on top leads to a value, a merged value has this on top of what was there. -/
theorem follow?_merge {upper : Value} (hupper : KeysOnce upper) (base : Option Value)
    {keys : List Value} {v : Value} (hv : upper.follow? keys = some v) :
    (merge base upper).follow? keys = some (merge (base.bind (·.follow? keys)) v) := by
  induction keys generalizing upper base with
  | nil =>
    obtain rfl := Option.some.inj hv
    cases base <;> rfl
  | cons k keys ih =>
    obtain ⟨u, hu, hrest⟩ := Option.bind_eq_some_iff.mp hv
    cases upper with
    | map entries =>
      change Entries.get? k entries = some u at hu
      rw [follow?_merge_cons hupper.nodup, hu]
      simp only
      rw [ih (hupper.of_get? hu) _ hrest, Option.bind_assoc]
      rfl
    | _ => cases hu

/-- Where what is put on top leads nowhere and has no leaf in the way, a merged value has what was
there. -/
theorem follow?_merge_of_open {upper : Value} (hupper : KeysOnce upper) (base : Option Value)
    {keys : List Value} (hnone : upper.follow? keys = none) (hopen : ¬ StopsBefore upper keys) :
    (merge base upper).follow? keys = base.bind (·.follow? keys) := by
  induction keys generalizing upper base with
  | nil => cases hnone
  | cons k keys ih =>
    cases upper with
    | map entries =>
      rw [follow?_merge_cons hupper.nodup]
      cases hk : Entries.get? k entries with
      | none => rfl
      | some u =>
        rw [follow?, valueAt?, hk, Option.bind_some] at hnone
        simp only
        rw [ih (hupper.of_get? hk) _ hnone fun h => hopen (stopsBefore_map_iff.mpr ⟨u, hk, h⟩),
          Option.bind_assoc]
        rfl
    | _ => exact absurd (stopsBefore_of_not_map rfl k keys) hopen

/-- Below a leaf of what is put on top a merged value has nothing. -/
theorem follow?_merge_of_stops {upper : Value} (hupper : KeysOnce upper) (base : Option Value)
    {keys : List Value} (hstops : StopsBefore upper keys) :
    (merge base upper).follow? keys = none := by
  obtain ⟨start, leaf, ⟨rest, rfl⟩, hne, hleaf, hnot⟩ := hstops
  have hrest : rest ≠ [] := fun hnil => hne (by rw [hnil, List.append_nil])
  rw [follow?_append, follow?_merge hupper base hleaf, Option.bind_some, merge_leaf hnot,
    follow?_of_not_map hnot hrest]

/-! ## The order of keys -/

/-- A merged mapping has the keys of the base in their order, and then the new ones in theirs. -/
theorem keys_mergeEntries {base upper : Fields} (hupper : (Entries.keys upper).Nodup) :
    Entries.keys (mergeEntries base upper) =
      Entries.keys base ++ (Entries.keys upper).filter (· ∉ Entries.keys base) := by
  induction upper generalizing base with
  | nil => exact (List.append_nil _).symm
  | cons e upper ih =>
    obtain ⟨k, v⟩ := e
    rw [Entries.keys_cons, List.nodup_cons] at hupper
    rw [mergeEntries, ih hupper.2, Entries.keys_put, Entries.keys_cons, List.filter_cons]
    by_cases hk : k ∈ Entries.keys base
    · simp [hk]
    · -- the new key is no key of what follows, so that it does not hide one
      have hrest : (Entries.keys upper).filter (· ∉ Entries.keys base ++ [k]) =
          (Entries.keys upper).filter (· ∉ Entries.keys base) := by
        refine List.filter_congr fun l hl => ?_
        have hne : l ≠ k := fun h => hupper.1 (h ▸ hl)
        simp [hne]
      simp only [hk, if_false, hrest, not_false_eq_true, decide_true, if_true]
      rw [List.append_assoc, List.singleton_append]

/-! ## The law of merging -/

/-- The last write wins at each path. Where what is put on top has a value, this is the value of the
merged mapping, unless both have mappings: then the mapping there has the keys of the base in their
order and after them the new ones in theirs, as the merged mapping itself has. Where what is put on
top has none, the merged mapping has what the base has, or nothing if a leaf is in the way. -/
theorem follow?_mergeEntries {base upper : Fields} (hupper : KeysOnce (.map upper))
    (keys : List Value) :
    (∀ v, (Value.map upper).follow? keys = some v →
      v.isMap = false ∨ (∀ u, (Value.map base).follow? keys = some u → u.isMap = false) →
        (Value.map (mergeEntries base upper)).follow? keys = some v) ∧
    (∀ lower top, (Value.map base).follow? keys = some (.map lower) →
      (Value.map upper).follow? keys = some (.map top) →
        ∃ entries, (Value.map (mergeEntries base upper)).follow? keys = some (.map entries) ∧
          Entries.keys entries =
            Entries.keys lower ++ (Entries.keys top).filter (· ∉ Entries.keys lower)) ∧
    ((Value.map upper).follow? keys = none →
      (¬ StopsBefore (.map upper) keys →
        (Value.map (mergeEntries base upper)).follow? keys = (Value.map base).follow? keys) ∧
      (StopsBefore (.map upper) keys →
        (Value.map (mergeEntries base upper)).follow? keys = none)) ∧
    Entries.keys (mergeEntries base upper) =
      Entries.keys base ++ (Entries.keys upper).filter (· ∉ Entries.keys base) := by
  have hmerged {v : Value} (hv : (Value.map upper).follow? keys = some v) :
      (Value.map (mergeEntries base upper)).follow? keys =
        some (merge ((Value.map base).follow? keys) v) := follow?_merge hupper (some (.map base)) hv
  refine ⟨fun v hv hreplaced => ?_, fun lower top ha hb => ?_, fun hnone => ⟨fun hopen => ?_,
    follow?_merge_of_stops hupper (some (.map base))⟩,
    keys_mergeEntries hupper.nodup⟩
  · rw [hmerged hv]
    rcases hreplaced with hleaf | hbase
    · rw [merge_leaf hleaf]
    · cases hu : (Value.map base).follow? keys with
      | none => rw [merge_none]
      | some u => rw [merge_of_not_map (hbase u hu)]
  · have htop : KeysOnce (.map top) := hupper.of_follow? hb
    refine ⟨mergeEntries lower top, ?_, keys_mergeEntries htop.nodup⟩
    rw [hmerged hb, ha]
    rfl
  · exact follow?_merge_of_open hupper (some (.map base)) hnone hopen

/-- Members that are mappings but for one. -/
def lowerLayer : Fields :=
  [(.str "get", .map [(.str "id", .int 1), (.str "tags", .seq [.str "a"])]),
    (.str "put", .map [(.str "id", .int 2)]), (.str "post", .null),
    (.str "head", .map [(.str "id", .int 3)])]

/-- A new member, a leaf for a mapping, a mapping for a leaf, and a mapping for a mapping. -/
def upperLayer : Fields :=
  [(.str "patch", .map []), (.str "head", .null), (.str "post", .map [(.str "id", .int 4)]),
    (.str "get", .map [(.str "name", .str "n"), (.str "tags", .seq [.str "b"])])]

theorem follow?_mergeEntries_layers :
    KeysOnce (.map upperLayer) ∧
    Entries.keys (mergeEntries lowerLayer upperLayer) =
      [.str "get", .str "put", .str "post", .str "head", .str "patch"] ∧
    (∃ entries, (Value.map (mergeEntries lowerLayer upperLayer)).follow? [.str "get"] =
        some (.map entries) ∧ Entries.keys entries = [.str "id", .str "tags", .str "name"]) ∧
    (Value.map (mergeEntries lowerLayer upperLayer)).follow? [.str "get", .str "tags"] =
      some (.seq [.str "b"]) ∧
    (Value.map (mergeEntries lowerLayer upperLayer)).follow? [.str "get", .str "id"] =
      some (.int 1) ∧
    (Value.map (mergeEntries lowerLayer upperLayer)).follow? [.str "post", .str "id"] =
      some (.int 4) ∧
    (Value.map (mergeEntries lowerLayer upperLayer)).follow? [.str "head", .str "id"] = none := by
  have honce : KeysOnce (.map upperLayer) := by decide
  have hlaw := @follow?_mergeEntries lowerLayer upperLayer honce
  refine ⟨honce, (hlaw []).2.2.2.trans (by decide), ?_, ?_, ?_, ?_, ?_⟩
  · obtain ⟨entries, hentries, hkeys⟩ := (hlaw [.str "get"]).2.1 _ _ rfl rfl
    exact ⟨entries, hentries, hkeys.trans (by decide)⟩
  · exact (hlaw [.str "get", .str "tags"]).1 _ rfl (.inl rfl)
  · refine ((hlaw [.str "get", .str "id"]).2.2.1 rfl).1 fun hstops => ?_
    obtain ⟨entries, hget, hstops⟩ := stopsBefore_map_iff.mp hstops
    obtain rfl := Option.some.inj hget
    -- the mapping on top leads nowhere by the second key
    obtain ⟨v, hid, -⟩ := stopsBefore_map_iff.mp hstops
    cases hid
  · exact (hlaw [.str "post", .str "id"]).1 _ rfl (.inl rfl)
  · exact ((hlaw [.str "head", .str "id"]).2.2.1 rfl).2
      ⟨[.str "head"], .null, ⟨[.str "id"], rfl⟩, by decide, rfl, rfl⟩

end ApiTree.Value
