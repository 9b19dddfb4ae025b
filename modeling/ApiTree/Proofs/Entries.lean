import ApiTree.Entries
import Mathlib

/-!
# What entries answer

The value of a key after a write, after several writes, and in entries that are read as a mapping.
Entries that write each key once are told by the values of their keys, up to their order
(`reordered_of_get?`).
-/

set_option autoImplicit false

namespace ApiTree.Entries

variable {κ α : Type} [DecidableEq κ]

theorem get?_put_self (k : κ) (v : α) (es : List (κ × α)) : get? k (put k v es) = some v := by
  induction es with
  | nil => simp [put, get?]
  | cons e es ih =>
    rw [put]
    split
    · simp_all [get?]
    · simp_all [get?]

theorem get?_put_of_ne {k l : κ} (h : l ≠ k) (v : α) (es : List (κ × α)) :
    get? k (put l v es) = get? k es := by
  induction es with
  | nil => simp [put, get?, h]
  | cons e es ih =>
    rw [put]
    split
    · simp_all [get?]
    · simp only [get?, ih]

/-- A write changes the value of its own key and of no other. -/
theorem get?_put (k l : κ) (v : α) (es : List (κ × α)) :
    get? k (put l v es) = if l = k then some v else get? k es := by
  split
  · next h => rw [h, get?_put_self]
  · next h => exact get?_put_of_ne h v es

/-! ## Keys -/

omit [DecidableEq κ] in
theorem keys_cons (e : κ × α) (es : List (κ × α)) : keys (e :: es) = e.1 :: keys es := rfl

theorem mem_keys_put {k l : κ} {v : α} {es : List (κ × α)} :
    l ∈ keys (put k v es) ↔ l = k ∨ l ∈ keys es := by
  induction es with
  | nil => simp [put, keys]
  | cons e es ih =>
    rw [put]
    split
    · next h => simp [keys, h]
    · next h =>
      rw [keys_cons, keys_cons, List.mem_cons, List.mem_cons, ih]
      exact or_left_comm

/-- Which keys there are after a write depends on those before it alone. -/
theorem keys_put_congr (k : κ) (v w : α) {es fs : List (κ × α)} (h : keys fs = keys es) :
    keys (put k w fs) = keys (put k v es) := by
  induction es generalizing fs with
  | nil =>
    obtain rfl : fs = [] := List.map_eq_nil_iff.mp h
    rfl
  | cons e es ih =>
    obtain ⟨f, fs, rfl, hf, hfs⟩ := List.map_eq_cons_iff.mp h
    rw [put, put, hf]
    split
    · rw [keys_cons, keys_cons]
      exact congrArg _ hfs
    · rw [keys_cons, keys_cons, ih hfs]

/-- A write keeps the keys in their order; a key that is new comes last. -/
theorem keys_put (k : κ) (v : α) (es : List (κ × α)) :
    keys (put k v es) = if k ∈ keys es then keys es else keys es ++ [k] := by
  induction es with
  | nil => rfl
  | cons e es ih =>
    rw [put, keys_cons]
    by_cases hk : e.1 = k
    · rw [if_pos hk, keys_cons, if_pos (hk ▸ List.mem_cons_self)]
    · have hmem : k ∈ e.1 :: keys es ↔ k ∈ keys es :=
        List.mem_cons.trans (or_iff_right (Ne.symm hk))
      rw [if_neg hk, keys_cons, ih]
      by_cases hes : k ∈ keys es
      · rw [if_pos hes, if_pos (hmem.mpr hes)]
      · rw [if_neg hes, if_neg (mt hmem.mp hes), List.cons_append]

theorem nodup_keys_put (k : κ) (v : α) {es : List (κ × α)} (h : (keys es).Nodup) :
    (keys (put k v es)).Nodup := by
  induction es with
  | nil => simp [put, keys]
  | cons e es ih =>
    rw [keys_cons, List.nodup_cons] at h
    rw [put]
    split
    · exact List.nodup_cons.mpr h
    · next hk =>
      refine List.nodup_cons.mpr ⟨fun hmem => ?_, ih h.2⟩
      rcases mem_keys_put.mp hmem with heq | hmem
      · exact hk heq
      · exact h.1 hmem

theorem get?_eq_none_iff {k : κ} {es : List (κ × α)} : get? k es = none ↔ k ∉ keys es := by
  induction es with
  | nil => simp [get?, keys]
  | cons e es ih =>
    rw [get?, keys_cons, List.mem_cons, not_or]
    split
    · next h => simp [h]
    · next h =>
      rw [ih]
      exact ⟨fun hmem => ⟨fun heq => h heq.symm, hmem⟩, fun hboth => hboth.2⟩

theorem mem_keys_of_get? {k : κ} {v : α} {es : List (κ × α)} (h : get? k es = some v) :
    k ∈ keys es := by
  by_contra hk
  rw [get?_eq_none_iff.mpr hk] at h
  cases h

theorem exists_get?_of_mem_keys {k : κ} {es : List (κ × α)} (h : k ∈ keys es) :
    ∃ v, get? k es = some v := by
  cases hv : get? k es with
  | none => exact absurd h (get?_eq_none_iff.mp hv)
  | some v => exact ⟨v, rfl⟩

/-! ## Entries -/

theorem mem_of_get? {k : κ} {v : α} {es : List (κ × α)} (h : get? k es = some v) :
    (k, v) ∈ es := by
  induction es with
  | nil => cases h
  | cons e es ih =>
    rw [get?] at h
    split at h
    · next hk => exact List.mem_cons.mpr (.inl (Prod.ext hk.symm (Option.some.inj h).symm))
    · exact List.mem_cons_of_mem e (ih h)

theorem get?_of_mem {k : κ} {v : α} {es : List (κ × α)} (hkeys : (keys es).Nodup)
    (h : (k, v) ∈ es) : get? k es = some v := by
  induction es with
  | nil => cases h
  | cons e es ih =>
    rw [keys_cons, List.nodup_cons] at hkeys
    rw [get?]
    rcases List.mem_cons.mp h with rfl | h
    · exact if_pos rfl
    · rw [if_neg, ih hkeys.2 h]
      rintro rfl
      exact hkeys.1 (List.mem_map.mpr ⟨(e.1, v), h, rfl⟩)

theorem mem_put {k : κ} {v : α} {e : κ × α} {es : List (κ × α)} (h : e ∈ put k v es) :
    e = (k, v) ∨ e ∈ es := by
  induction es with
  | nil => exact .inl (List.mem_singleton.mp h)
  | cons f es ih =>
    rw [put] at h
    split at h
    · next hk =>
      rcases List.mem_cons.mp h with rfl | h
      · exact .inl (by rw [hk])
      · exact .inr (List.mem_cons_of_mem f h)
    · rcases List.mem_cons.mp h with rfl | h
      · exact .inr List.mem_cons_self
      · exact (ih h).imp_right (List.mem_cons_of_mem f)

/-- Writing at a key that is present changes one entry. -/
theorem put_eq_of_get? {k : κ} {v : α} (w : α) {es : List (κ × α)} (h : get? k es = some v) :
    ∃ before after, es = before ++ (k, v) :: after ∧ put k w es = before ++ (k, w) :: after := by
  induction es with
  | nil => cases h
  | cons e es ih =>
    rw [get?] at h
    rw [put]
    split at h
    · next hk =>
      refine ⟨[], es, ?_, by rw [if_pos hk, hk]; rfl⟩
      rw [← hk, ← Option.some.inj h]
      rfl
    · next hk =>
      obtain ⟨before, after, hes, hput⟩ := ih h
      refine ⟨e :: before, after, by rw [hes]; rfl, ?_⟩
      rw [if_neg hk, hput]
      rfl

/-- Writing the value that a key has changes nothing. -/
theorem put_of_get? {k : κ} {v : α} {es : List (κ × α)} (h : get? k es = some v) :
    put k v es = es := by
  obtain ⟨before, after, hes, hput⟩ := put_eq_of_get? v h
  rw [hput, hes]

/-- A write is not seen where neither the value that is written nor the one before is kept. -/
theorem filter_put {keep : κ × α → Bool} {k : κ} {v : α} {es : List (κ × α)}
    (hnew : keep (k, v) = false) (hold : ∀ w, get? k es = some w → keep (k, w) = false) :
    (put k v es).filter keep = es.filter keep := by
  induction es with
  | nil => rw [put, List.filter_cons_of_neg (by simp [hnew])]
  | cons e es ih =>
    rw [put]
    split
    · next hk =>
      have he : keep e = false := by
        rw [← hold e.2 (by rw [get?, if_pos hk]), ← hk]
      rw [List.filter_cons_of_neg (by simp [hk, hnew]), List.filter_cons_of_neg (by simp [he])]
    · next hk =>
      rw [List.filter_cons, List.filter_cons,
        ih fun w hw => hold w (by rw [get?, if_neg hk, hw])]

/-- A key that is not kept can be taken out. -/
theorem filter_erase {keep : κ × α → Bool} {k : κ} (h : ∀ v, keep (k, v) = false)
    (es : List (κ × α)) : (erase k es).filter keep = es.filter keep := by
  induction es with
  | nil => rfl
  | cons e es ih =>
    rw [erase]
    split
    · next hk =>
      have he : keep e = false := by
        rw [← h e.2, ← hk]
      rw [List.filter_cons_of_neg (by simp [he])]
    · rw [List.filter_cons, List.filter_cons, ih]

theorem erase_sublist (k : κ) (es : List (κ × α)) : (erase k es).Sublist es := by
  induction es with
  | nil => exact .slnil
  | cons e es ih =>
    rw [erase]
    split
    · exact List.sublist_cons_self e es
    · exact ih.cons_cons e

/-- Without a key the entries are those of the other keys. -/
theorem perm_cons_erase {k : κ} {v : α} {es : List (κ × α)} (h : get? k es = some v) :
    es.Perm ((k, v) :: erase k es) := by
  induction es with
  | nil => cases h
  | cons e es ih =>
    rw [get?] at h
    rw [erase]
    split at h
    · next hk =>
      rw [if_pos hk, ← hk, ← Option.some.inj h]
    · next hk =>
      rw [if_neg hk]
      exact ((ih h).cons e).trans (.swap _ _ _)

theorem erase_put_self (k : κ) (v : α) (es : List (κ × α)) : erase k (put k v es) = erase k es := by
  induction es with
  | nil => simp [put, erase]
  | cons e es ih =>
    rw [put, erase]
    split
    · next hk => rw [erase, if_pos hk]
    · next hk => rw [erase, if_neg hk, ih]

theorem erase_put_of_ne {k l : κ} (h : l ≠ k) (v : α) (es : List (κ × α)) :
    erase k (put l v es) = put l v (erase k es) := by
  induction es with
  | nil => simp [put, erase, h]
  | cons e es ih =>
    rw [put, erase]
    split
    · next hl =>
      have hne : ¬ e.1 = k := hl ▸ h
      rw [erase, if_neg hne, if_neg hne, put, if_pos hl]
    · next hl =>
      rw [erase]
      split
      · rfl
      · rw [put, if_neg hl, ih]

theorem get?_erase_of_ne {k l : κ} (h : l ≠ k) (es : List (κ × α)) :
    get? k (erase l es) = get? k es := by
  induction es with
  | nil => rfl
  | cons e es ih =>
    rw [erase, get?]
    split
    · next hl => rw [if_neg (hl ▸ h)]
    · rw [get?, ih]

/-! ## Several writes -/

/-- Of several entries with one key that are written the last one counts. -/
theorem get?_putAll_eq_last (k : κ) (new es : List (κ × α)) :
    get? k (putAll new es) =
      (((new.filter fun e => e.1 = k).getLast?).map Prod.snd).or (get? k es) := by
  induction new using List.reverseRecOn with
  | nil => rfl
  | append_singleton new e ih =>
    rw [putAll] at ih ⊢
    rw [List.foldl_append, List.foldl_cons, List.foldl_nil, get?_put, List.filter_append]
    by_cases hk : e.1 = k
    · simp [hk]
    · simp [hk, ih]

theorem get?_ofPairs (k : κ) (es : List (κ × α)) :
    get? k (ofPairs es) = ((es.filter fun e => e.1 = k).getLast?).map Prod.snd := by
  rw [ofPairs, get?_putAll_eq_last, get?, Option.or_none]

theorem get?_putAll (k : κ) (new es : List (κ × α)) :
    get? k (putAll new es) = (get? k (ofPairs new)).or (get? k es) := by
  rw [get?_putAll_eq_last, get?_ofPairs]

/-- Entries of other keys that are not written do not matter. -/
theorem get?_ofPairs_filter {k : κ} {keep : κ × α → Bool} (es : List (κ × α))
    (h : ∀ v, keep (k, v) = true) : get? k (ofPairs (es.filter keep)) = get? k (ofPairs es) := by
  rw [get?_ofPairs, get?_ofPairs, List.filter_filter]
  congr 3
  funext e
  by_cases hk : e.1 = k
  · rw [← hk] at h
    simp [hk, h e.2]
  · simp [hk]

/-- Of entries that are kept by their keys, a key that is kept has the value that counts. -/
theorem get?_ofPairs_filter_keys (k : κ) (keep : κ → Bool) (es : List (κ × α)) :
    get? k (ofPairs (es.filter fun e => keep e.1)) =
      if keep k then get? k (ofPairs es) else none := by
  split
  · next hk => exact get?_ofPairs_filter es fun _ => hk
  · next hk =>
    rw [get?_ofPairs, List.filter_eq_nil_iff.mpr]
    · rfl
    · intro e he heq
      obtain rfl := of_decide_eq_true heq
      exact hk (List.mem_filter.mp he).2

theorem get?_ofPairs_erase {k l : κ} (h : l ≠ k) (es : List (κ × α)) :
    get? k (ofPairs (erase l es)) = get? k (ofPairs es) := by
  have hfilter : (erase l es).filter (fun e => e.1 = k) = es.filter fun e => e.1 = k := by
    induction es with
    | nil => rfl
    | cons e es ih =>
      rw [erase]
      split
      · next hl => rw [List.filter_cons_of_neg (by simpa [hl] using h)]
      · rw [List.filter_cons, List.filter_cons, ih]
  rw [get?_ofPairs, get?_ofPairs, hfilter]

theorem get?_filter {k : κ} {keep : κ × α → Bool} (es : List (κ × α))
    (h : ∀ v, keep (k, v) = true) : get? k (es.filter keep) = get? k es := by
  induction es with
  | nil => rfl
  | cons e es ih =>
    rw [List.filter_cons]
    by_cases hk : e.1 = k
    · have he : keep e = true := by
        rw [← h e.2, ← hk]
      rw [if_pos he, get?, get?, if_pos hk, if_pos hk]
    · rw [get?, if_neg hk, ← ih]
      split
      · rw [get?, if_neg hk]
      · rfl

/-- Of entries that are kept by their keys, a key that is kept has the value that it had. -/
theorem get?_filter_keys (k : κ) (keep : κ → Bool) (es : List (κ × α)) :
    get? k (es.filter fun e => keep e.1) = if keep k then get? k es else none := by
  split
  · next hk => exact get?_filter es fun _ => hk
  · next hk =>
    rw [get?_eq_none_iff]
    intro hmem
    obtain ⟨e, he, rfl⟩ := List.mem_map.mp hmem
    exact hk (List.mem_filter.mp he).2

/-- Of entries that are kept by their values, a key has the value that it had if that is kept. -/
theorem get?_filter_values {es : List (κ × α)} (h : (keys es).Nodup) (k : κ) (keep : α → Bool) :
    get? k (es.filter fun e => keep e.2) = (get? k es).filter keep := by
  induction es with
  | nil => rfl
  | cons e es ih =>
    rw [keys_cons, List.nodup_cons] at h
    rw [List.filter_cons, get?]
    by_cases hk : e.1 = k
    · rw [if_pos hk, Option.filter_some]
      split
      · exact if_pos hk
      · -- the key is not written again
        rw [ih h.2, get?_eq_none_iff.mpr (hk ▸ h.1), Option.filter_none]
    · rw [if_neg hk, ← ih h.2]
      split
      · exact if_neg hk
      · rfl

/-! ## Changing values -/

theorem get?_map_values {β : Type} (g : α → β) (k : κ) (es : List (κ × α)) :
    get? k (es.map fun e => (e.1, g e.2)) = (get? k es).map g := by
  induction es with
  | nil => rfl
  | cons e es ih =>
    rw [List.map_cons, get?, get?, ih]
    split <;> rfl

/-! ## Picking -/

theorem get?_of_mem_pick {ks : List κ} {es : List (κ × α)} {e : κ × α} (h : e ∈ pick ks es) :
    get? e.1 es = some e.2 := by
  obtain ⟨k, -, hk⟩ := List.mem_filterMap.mp h
  obtain ⟨v, hv, rfl⟩ := Option.map_eq_some_iff.mp hk
  exact hv

theorem keys_pick_sublist (ks : List κ) (es : List (κ × α)) : (keys (pick ks es)).Sublist ks := by
  induction ks with
  | nil => exact .slnil
  | cons k ks ih =>
    rw [pick, List.filterMap_cons]
    cases get? k es with
    | none => exact ih.cons k
    | some v => exact ih.cons_cons k

theorem get?_pick (k : κ) (ks : List κ) (es : List (κ × α)) :
    get? k (pick ks es) = if k ∈ ks then get? k es else none := by
  induction ks with
  | nil => rfl
  | cons l ks ih =>
    rw [pick, List.filterMap_cons]
    rw [pick] at ih
    by_cases hk : l = k
    · subst hk
      rw [if_pos List.mem_cons_self]
      cases hl : get? l es with
      | none =>
        rw [Option.map_none]
        dsimp only
        rw [ih, hl, ite_self]
      | some v =>
        rw [Option.map_some]
        exact if_pos rfl
    · have hmem : k ∈ l :: ks ↔ k ∈ ks := by
        rw [List.mem_cons, or_iff_right (Ne.symm hk)]
      simp only [hmem]
      cases get? l es with
      | none => exact ih
      | some v =>
        rw [Option.map_some]
        dsimp only
        rw [get?, if_neg hk, ih]

theorem pick_put_of_not_mem {k : κ} {ks : List κ} (h : k ∉ ks) (v : α) (es : List (κ × α)) :
    pick ks (put k v es) = pick ks es := by
  apply List.filterMap_congr
  intro l hl
  have hne : k ≠ l := fun heq => h (heq ▸ hl)
  rw [get?_put_of_ne hne]

/-! ## Entries one after another -/

theorem get?_append (k : κ) (es fs : List (κ × α)) :
    get? k (es ++ fs) = (get? k es).or (get? k fs) := by
  induction es with
  | nil => rfl
  | cons e es ih =>
    rw [List.cons_append, get?, get?]
    split
    · rfl
    · exact ih

theorem put_append_of_not_mem {k : κ} {es : List (κ × α)} (h : k ∉ keys es) (v : α)
    (fs : List (κ × α)) : put k v (es ++ fs) = es ++ put k v fs := by
  induction es with
  | nil => rfl
  | cons e es ih =>
    rw [keys_cons, List.mem_cons, not_or] at h
    rw [List.cons_append, put, if_neg (Ne.symm h.1), ih h.2, List.cons_append]

theorem erase_append_of_not_mem {k : κ} {es : List (κ × α)} (h : k ∉ keys es)
    (fs : List (κ × α)) : erase k (es ++ fs) = es ++ erase k fs := by
  induction es with
  | nil => rfl
  | cons e es ih =>
    rw [keys_cons, List.mem_cons, not_or] at h
    rw [List.cons_append, erase, if_neg (Ne.symm h.1), ih h.2, List.cons_append]

theorem get?_putNew (k l : κ) (v : α) (es : List (κ × α)) :
    get? k (putNew l v es) = if l = k then some ((get? k es).getD v) else get? k es := by
  rw [putNew, has]
  cases hl : get? l es with
  | none =>
    rw [Option.isSome_none, if_neg Bool.false_ne_true, get?_put]
    split
    · next hk => rw [← hk, hl, Option.getD_none]
    · rfl
  | some w =>
    rw [Option.isSome_some, if_pos rfl]
    split
    · next hk => rw [← hk, hl, Option.getD_some]
    · rfl

/-- What is written unless it is there comes last. -/
theorem putNew_eq_append (k : κ) (v : α) (es : List (κ × α)) :
    ∃ more, putNew k v es = es ++ more := by
  rw [putNew]
  split
  · exact ⟨[], (List.append_nil es).symm⟩
  · next hk =>
    have habsent : k ∉ keys es := by
      apply get?_eq_none_iff.mp
      simpa [has] using hk
    have hput := put_append_of_not_mem habsent v []
    rw [List.append_nil] at hput
    exact ⟨[(k, v)], hput⟩

theorem erase_of_not_mem {k : κ} {es : List (κ × α)} (h : k ∉ keys es) : erase k es = es := by
  have herase := erase_append_of_not_mem h []
  simpa [erase] using herase

/-! ## Keys that are written once -/

theorem nodup_keys_putAll {new es : List (κ × α)} (h : (keys es).Nodup) :
    (keys (putAll new es)).Nodup := by
  induction new generalizing es with
  | nil => exact h
  | cons e new ih => exact ih (nodup_keys_put e.1 e.2 h)

theorem nodup_keys_erase (k : κ) {es : List (κ × α)} (h : (keys es).Nodup) :
    (keys (erase k es)).Nodup :=
  h.sublist ((erase_sublist k es).map Prod.fst)

/-- Entries that write each key once are read as they stand. -/
theorem ofPairs_of_nodup {es : List (κ × α)} (h : (keys es).Nodup) : ofPairs es = es := by
  induction es using List.reverseRecOn with
  | nil => rfl
  | append_singleton es e ih =>
    rw [keys, List.map_append, List.nodup_append'] at h
    obtain ⟨hes, -, hdisjoint⟩ := h
    have hnew : e.1 ∉ keys es := fun hmem => hdisjoint hmem List.mem_cons_self
    have hread : es.foldl (fun acc e => put e.1 e.2 acc) [] = es := ih hes
    have hput := put_append_of_not_mem hnew e.2 []
    rw [List.append_nil] at hput
    rw [ofPairs, putAll, List.foldl_append, hread, List.foldl_cons, List.foldl_nil, hput]
    rfl

theorem mem_keys_putAll {k : κ} {new es : List (κ × α)} :
    k ∈ keys (putAll new es) ↔ k ∈ keys new ∨ k ∈ keys es := by
  induction new generalizing es with
  | nil => simp [putAll, keys]
  | cons e new ih =>
    have hput : putAll (e :: new) es = putAll new (put e.1 e.2 es) := rfl
    rw [hput, ih, mem_keys_put, keys_cons, List.mem_cons, or_left_comm, or_assoc]

/-- Entries that are read as a mapping have one entry for each key that they write. -/
theorem length_ofPairs (es : List (κ × α)) : (ofPairs es).length = (keys es).dedup.length := by
  have hnodup : (keys (ofPairs es)).Nodup := nodup_keys_putAll List.nodup_nil
  have hperm : (keys (ofPairs es)).Perm (keys es).dedup := by
    refine (List.perm_ext_iff_of_nodup hnodup (List.nodup_dedup _)).mpr fun k => ?_
    rw [List.mem_dedup, ofPairs, mem_keys_putAll]
    simp [keys]
  rw [← hperm.length_eq, keys, List.length_map]

theorem get?_putAll_of_nodup (k : κ) {new : List (κ × α)} (h : (keys new).Nodup)
    (es : List (κ × α)) : get? k (putAll new es) = (get? k new).or (get? k es) := by
  rw [get?_putAll, ofPairs_of_nodup h]

theorem get?_erase_self {k : κ} {es : List (κ × α)} (h : (keys es).Nodup) :
    get? k (erase k es) = none := by
  induction es with
  | nil => rfl
  | cons e es ih =>
    rw [keys_cons, List.nodup_cons] at h
    rw [erase]
    split
    · next hk => exact get?_eq_none_iff.mpr (hk ▸ h.1)
    · next hk => rw [get?, if_neg hk, ih h.2]

/-- Without a key the other keys have the values that they had. -/
theorem get?_erase (k l : κ) {es : List (κ × α)} (h : (keys es).Nodup) :
    get? k (erase l es) = if k = l then none else get? k es := by
  split
  · next hk => rw [hk, get?_erase_self h]
  · next hk => exact get?_erase_of_ne (Ne.symm hk) es

/-- Entries that write each key once are told by their keys in order and the value of each key. -/
theorem eq_of_keys_of_get? {es fs : List (κ × α)} (hes : (keys es).Nodup)
    (hkeys : keys es = keys fs) (h : ∀ k, get? k es = get? k fs) : es = fs := by
  induction es generalizing fs with
  | nil => exact (List.map_eq_nil_iff.mp hkeys.symm).symm
  | cons e es ih =>
    obtain ⟨f, fs, rfl, hkey, hrest⟩ := List.map_eq_cons_iff.mp hkeys.symm
    change keys fs = keys es at hrest
    rw [keys_cons, List.nodup_cons] at hes
    have hvalue := h e.1
    rw [get?, if_pos rfl, get?, if_pos hkey, Option.some.injEq] at hvalue
    have htail : es = fs := by
      refine ih hes.2 hrest.symm fun k => ?_
      by_cases hk : e.1 = k
      · -- the key of the first entry has no value in what follows
        rw [← hk, get?_eq_none_iff.mpr hes.1, eq_comm, get?_eq_none_iff]
        exact fun hmem => hes.1 (hrest ▸ hmem)
      · have hothers := h k
        rwa [get?, if_neg hk, get?, if_neg (hkey ▸ hk)] at hothers
    rw [htail, Prod.ext hkey.symm hvalue]

/-! ## The order of entries -/

/-- The same entries in another order, each key written once. -/
structure Reordered (es fs : List (κ × α)) : Prop where
  nodup : (keys es).Nodup
  perm : es.Perm fs

omit [DecidableEq κ] in
theorem Reordered.nodup' {es fs : List (κ × α)} (h : Reordered es fs) : (keys fs).Nodup :=
  (h.perm.map Prod.fst).nodup_iff.mp h.nodup

theorem Reordered.get?_eq {es fs : List (κ × α)} (h : Reordered es fs) (k : κ) :
    get? k fs = get? k es := by
  cases hk : get? k es with
  | some v => exact get?_of_mem h.nodup' (h.perm.mem_iff.mp (mem_of_get? hk))
  | none =>
    rw [get?_eq_none_iff] at hk ⊢
    rwa [keys, ← (h.perm.map Prod.fst).mem_iff]

/-- Entries that write each key once and have the same value at each key differ in their order
alone. -/
theorem reordered_of_get? {es fs : List (κ × α)} (hes : (keys es).Nodup) (hfs : (keys fs).Nodup)
    (h : ∀ k, get? k fs = get? k es) : Reordered es fs := by
  refine ⟨hes, (List.perm_ext_iff_of_nodup (.of_map _ hes) (.of_map _ hfs)).mpr fun e => ?_⟩
  constructor
  · intro he
    have hget := get?_of_mem hes (k := e.1) (v := e.2) he
    exact mem_of_get? ((h e.1).trans hget)
  · intro he
    have hget := get?_of_mem hfs (k := e.1) (v := e.2) he
    exact mem_of_get? ((h e.1).symm.trans hget)

namespace Reordered

variable {es fs : List (κ × α)}

protected theorem put (h : Reordered es fs) (k : κ) (v : α) :
    Reordered (Entries.put k v es) (Entries.put k v fs) := by
  refine reordered_of_get? (nodup_keys_put k v h.nodup) (nodup_keys_put k v h.nodup') fun l => ?_
  rw [get?_put, get?_put, h.get?_eq]

protected theorem erase (h : Reordered es fs) (k : κ) :
    Reordered (Entries.erase k es) (Entries.erase k fs) := by
  refine reordered_of_get? (nodup_keys_erase k h.nodup) (nodup_keys_erase k h.nodup') fun l => ?_
  rw [get?_erase l k h.nodup, get?_erase l k h.nodup', h.get?_eq]

omit [DecidableEq κ] in
protected theorem filter (h : Reordered es fs) (keep : κ × α → Bool) :
    Reordered (es.filter keep) (fs.filter keep) :=
  ⟨h.nodup.sublist (List.filter_sublist.map Prod.fst), h.perm.filter keep⟩

/-- What is written on entries in another order gives entries in another order. -/
theorem putAll_on (h : Reordered es fs) (new : List (κ × α)) :
    Reordered (putAll new es) (putAll new fs) := by
  refine reordered_of_get? (nodup_keys_putAll h.nodup) (nodup_keys_putAll h.nodup') fun k => ?_
  rw [get?_putAll, get?_putAll, h.get?_eq]

/-- Entries can be written in any order if each key is written once. -/
theorem putAll_of (h : Reordered es fs) {base : List (κ × α)} (hbase : (keys base).Nodup) :
    Reordered (putAll es base) (putAll fs base) := by
  refine reordered_of_get? (nodup_keys_putAll hbase) (nodup_keys_putAll hbase) fun k => ?_
  rw [get?_putAll_of_nodup k h.nodup', get?_putAll_of_nodup k h.nodup, h.get?_eq]

end Reordered

/-! ## Keys that count as one -/

section

variable {same : κ → κ → Bool}

omit [DecidableEq κ] in
theorem mem_putBy {k : κ} {v : α} {e : κ × α} {es : List (κ × α)} (h : e ∈ putBy same k v es) :
    e.2 = v ∨ e ∈ es := by
  induction es with
  | nil =>
    rw [List.mem_singleton.mp h]
    exact .inl rfl
  | cons f es ih =>
    rw [putBy] at h
    split at h
    · rcases List.mem_cons.mp h with rfl | hmem
      · exact .inl rfl
      · exact .inr (List.mem_cons_of_mem f hmem)
    · rcases List.mem_cons.mp h with rfl | hmem
      · exact .inr List.mem_cons_self
      · exact (ih hmem).imp_right (List.mem_cons_of_mem f)

omit [DecidableEq κ] in
/-- What is written at each key is the value of one of the pairs. -/
theorem exists_of_mem_ofPairsBy {e : κ × α} {pairs : List (κ × α)}
    (h : e ∈ ofPairsBy same pairs) : ∃ p ∈ pairs, e.2 = p.2 := by
  induction pairs using List.reverseRecOn with
  | nil => cases h
  | append_singleton pairs p ih =>
    rw [ofPairsBy, List.foldl_concat] at h
    rcases mem_putBy h with hvalue | hmem
    · exact ⟨p, List.mem_concat_self, hvalue⟩
    · obtain ⟨q, hq, hvalue⟩ := ih hmem
      exact ⟨q, List.mem_append_left _ hq, hvalue⟩

end

end ApiTree.Entries
