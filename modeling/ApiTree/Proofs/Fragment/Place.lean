import ApiTree.Fragment.Place
import ApiTree.Proofs.Operation.Slug
import ApiTree.Proofs.Text.Cut

/-!
# Operations of places

A file that is an operation has a method among its segments, and its key is made of the last such
segment and those before it. The segments of a path that was read from text are neither empty nor
hold a slash, so that the key is that of an operation below the base path.
-/

set_option autoImplicit false

namespace ApiTree

theorem FilePath.segments_ofText {text segment : String}
    (h : segment ∈ (FilePath.ofText text).segments) : segment ≠ "" ∧ '/' ∉ segment.toList := by
  rw [ofText, List.mem_filter, List.mem_map] at h
  obtain ⟨⟨piece, hpiece, rfl⟩, hkept⟩ := h
  refine ⟨fun hempty => ?_, fun hslash => ?_⟩
  · simp [hempty] at hkept
  · rw [String.toList_ofList] at hslash
    exact absurd (Text.forall_not_of_mem_splitWhere hpiece '/' hslash) (by decide)

namespace Place

theorem mem_segments_of_mem_below {root path : FilePath} {s : String}
    (h : s ∈ (root.below? path).getD path.segments) : s ∈ path.segments := by
  rw [FilePath.below?] at h
  split at h
  · exact List.mem_of_mem_drop h
  · exact h

/-- The parts of a path but the last are segments of it. -/
theorem mem_segments_of_mem_parts {root path : FilePath} {part : String}
    (h : part ∈ (parts root path).dropLast) : part ∈ path.segments := by
  rw [parts] at h
  cases hlast : ((root.below? path).getD path.segments).getLast? with
  | none =>
    rw [hlast] at h
    exact absurd h List.not_mem_nil
  | some last =>
    rw [hlast, List.dropLast_concat] at h
    exact mem_segments_of_mem_below (List.dropLast_subset _ h)

/-- What stands before the longest end segment of elements that satisfy `p`. -/
theorem take_eq_dropEndWhile {α : Type} (p : α → Bool) (xs : List α) :
    xs.take (xs.length - (xs.reverse.takeWhile p).reverse.length) = Text.dropEndWhile p xs := by
  have hlength := congrArg List.length (List.rdropWhile_append_rtakeWhile (p := p) (l := xs))
  rw [List.length_append] at hlength
  have hcount : xs.length - (xs.reverse.takeWhile p).reverse.length = (xs.rdropWhile p).length := by
    rw [← List.rtakeWhile]
    omega
  rw [hcount]
  exact (List.prefix_iff_eq_take.mp (List.rdropWhile_prefix p xs)).symm

/-- A file below no folder of static parts is an operation or a version of one, which its last part
that is a method and the parts before that say. -/
theorem ofParts_append_cons {base : String} {folder after : List String} {method : String}
    (hstatic : ∀ s ∈ folder ++ method :: after, s ∉ staticFolders) (hmethod : method ∈ methods)
    (hafter : ∀ s ∈ after, s ∉ methods) :
    ofParts base (folder ++ method :: after) =
      let key := OperationKey.make method (operationPath base folder)
      if after.isEmpty then { kind := .operation, operation := some key }
      else { kind := .versionedOperation, operation := some key, version := after.getLast? } := by
  have htail : ((folder ++ method :: after).reverse.takeWhile (!methods.contains ·)).reverse = after :=
    Text.takeWhile_reverse_append_cons (by simpa using hmethod) folder
      fun s hs => by simpa using hafter s hs
  have hhead : Text.dropEndWhile (!methods.contains ·) (folder ++ method :: after) =
      folder ++ [method] :=
    Text.dropEndWhile_append_cons (by simpa using hmethod) folder
      fun s hs => by simpa using hafter s hs
  have hnone : ((folder ++ method :: after).any staticFolders.contains) = false := by
    rw [List.any_eq_false]
    exact fun s hs => by simpa using hstatic s hs
  have hlast : (folder ++ method :: after).take ((folder ++ method :: after).length - after.length) =
      folder ++ [method] := by
    have htake := take_eq_dropEndWhile (!methods.contains ·) (folder ++ method :: after)
    rwa [htail, hhead] at htake
  have hbefore : (folder ++ method :: after).take
      ((folder ++ method :: after).length - after.length - 1) = folder := by
    have hlength : (folder ++ method :: after).length - after.length - 1 = folder.length := by
      rw [List.length_append, List.length_cons]
      omega
    rw [hlength, List.take_left]
  rw [ofParts, hnone]
  simp only [htail, hlast, List.getLast?_concat, hbefore, Bool.false_eq_true, if_false]

/-- The last part of an operation that is a method cuts its parts in two, and no part is the name of
a folder of static parts. -/
theorem exists_split_of_operation {base : String} {parts : List String} {k : OperationKey}
    (h : (ofParts base parts).operation = some k) :
    ∃ folder after : List String, ∃ method ∈ methods, parts = folder ++ method :: after ∧
      (∀ s ∈ after, s ∉ methods) ∧ (∀ s ∈ parts, s ∉ staticFolders) ∧
      k = OperationKey.make method (operationPath base folder) := by
  have hkey := h
  rw [ofParts] at h
  split at h
  · cases h
  · next hnone =>
    have hstatic : ∀ s ∈ parts, s ∉ staticFolders := fun s hs hmem =>
      hnone (List.any_eq_true.mpr ⟨s, hs, List.contains_iff_mem.mpr hmem⟩)
    simp only at h
    rw [take_eq_dropEndWhile] at h
    split at h
    · next method hlast =>
      have hmethod : method ∈ methods := by
        have := Text.getLast?_dropEndWhile hlast
        simpa using this
      obtain ⟨folder, hfolder⟩ := List.getLast?_eq_some_iff.mp hlast
      have hsplit := List.rdropWhile_append_rtakeWhile (p := (!methods.contains ·)) (l := parts)
      rw [← Text.dropEndWhile_eq_rdropWhile, hfolder, List.append_assoc, List.singleton_append]
        at hsplit
      have hafter : ∀ s ∈ parts.rtakeWhile (!methods.contains ·), s ∉ methods := fun s hs => by
        have := List.mem_rtakeWhile_imp hs
        simpa using this
      refine ⟨folder, _, method, hmethod, hsplit.symm, hafter, hstatic, ?_⟩
      -- the key is read off the parts that were put together again
      rw [← hsplit] at hkey hstatic
      rw [ofParts_append_cons hstatic hmethod hafter] at hkey
      simp only at hkey
      split at hkey <;> exact (Option.some.inj hkey).symm
    · split at h <;> cases h

/-- The operation of a file of a tree is below the base path. -/
theorem isBelow_of_ofPath {root : FilePath} {text base : String} {k : OperationKey}
    (h : (ofPath root (FilePath.ofText text) base).operation = some k) : k.IsBelow base := by
  obtain ⟨folder, after, method, hmem, hparts, -, -, rfl⟩ := exists_split_of_operation h
  rw [OperationKey.make, OperationKey.lower_method hmem]
  refine ⟨hmem, folder, fun s hs => ?_, rfl⟩
  have hpart : s ∈ (parts root (FilePath.ofText text)).dropLast := by
    rw [hparts, List.dropLast_append_of_ne_nil (List.cons_ne_nil method after)]
    exact List.mem_append_left _ hs
  exact FilePath.segments_ofText (mem_segments_of_mem_parts hpart)

theorem isBlank_of_mem_intercalate {segments : List String}
    (h : ∀ s ∈ segments, ∀ c ∈ s.toList, Text.isBlank c = false) :
    ∀ c ∈ (String.intercalate "/" segments).toList, Text.isBlank c = false := by
  induction segments with
  | nil => exact fun c hc => by cases hc
  | cons s segments ih =>
    have hs := h s List.mem_cons_self
    cases segments with
    | nil =>
      rw [String.intercalate_singleton]
      exact hs
    | cons t segments =>
      have ht := ih fun u hu => h u (List.mem_cons_of_mem s hu)
      intro c hc
      rw [String.intercalate_cons_cons, String.toList_append, String.toList_append,
        List.mem_append, List.mem_append] at hc
      rcases hc with (hc | hc) | hc
      · exact hs c hc
      · rw [List.mem_singleton.mp hc]
        decide
      · exact ht c hc

theorem isBlank_of_mem_trimBase {base : String} (h : ∀ c ∈ base.toList, Text.isBlank c = false) :
    ∀ c ∈ (trimBase base).toList, Text.isBlank c = false := by
  intro c hc
  rw [trimBase, String.toList_ofList] at hc
  exact h c ((List.rdropWhile_prefix _ _).subset hc)

/-- Without blanks in the base path and the segments there is none in the path of an operation. -/
theorem isBlank_of_mem_operationPath {base : String} {segments : List String}
    (hbase : ∀ c ∈ base.toList, Text.isBlank c = false)
    (hsegments : ∀ s ∈ segments, ∀ c ∈ s.toList, Text.isBlank c = false) :
    ∀ c ∈ (operationPath base segments).toList, Text.isBlank c = false := by
  have htrimmed := isBlank_of_mem_trimBase hbase
  intro c hc
  rw [operationPath] at hc
  split at hc
  · split at hc
    · rw [List.mem_singleton.mp hc]
      decide
    · exact htrimmed c hc
  · rw [String.toList_append, String.toList_append, List.mem_append, List.mem_append] at hc
    rcases hc with (hc | hc) | hc
    · exact htrimmed c hc
    · rw [List.mem_singleton.mp hc]
      decide
    · exact isBlank_of_mem_intercalate hsegments c hc

/-- The base path is empty or starts with exactly one slash, and no blank is in it. -/
structure IsPlainBase (base : String) : Prop where
  start : base = "" ∨ ∃ rest, base.toList = '/' :: rest ∧ rest.head? ≠ some '/'
  noBlank : ∀ c ∈ base.toList, Text.isBlank c = false

/-- Without the slashes at its end a plain base path is empty or starts with exactly one slash. -/
theorem IsPlainBase.trimBase_cases {base : String} (h : IsPlainBase base) :
    trimBase base = "" ∨ ∃ c rest, (trimBase base).toList = '/' :: c :: rest ∧ c ≠ '/' := by
  rcases h.start with rfl | ⟨rest, hrest, hhead⟩
  · exact .inl rfl
  · cases rest with
    | nil =>
      left
      rw [trimBase, hrest]
      rfl
    | cons c cs =>
      have hc : c ≠ '/' := fun hslash => hhead (by rw [hslash]; rfl)
      have hkeep := Text.dropEndWhile_cons_of_neg (p := (· == '/'))
        (beq_eq_false_iff_ne.mpr hc) cs
      right
      rw [trimBase, String.toList_ofList, hrest, Text.dropEndWhile_cons_of_ne_nil, hkeep]
      · exact ⟨c, _, rfl, hc⟩
      · rw [hkeep]
        exact List.cons_ne_nil c _

/-- Without blanks the slug of an operation can be read. -/
theorem isLegible_of_ofParts {base : String} {parts : List String} {k : OperationKey}
    (h : (ofParts (trimBase base) parts).operation = some k) (hbase : IsPlainBase base)
    (hparts : ∀ s ∈ parts, ∀ c ∈ s.toList, Text.isBlank c = false) :
    k.IsLegible (trimBase base) := by
  obtain ⟨folder, after, method, -, rfl, -, -, rfl⟩ := exists_split_of_operation h
  have hpath := isBlank_of_mem_operationPath (isBlank_of_mem_trimBase hbase.noBlank)
    fun s hs => hparts s (List.mem_append_left _ hs)
  refine ⟨?_, fun hspace => ?_, fun c hc => hpath c (List.mem_of_getLast? hc)⟩
  · rw [OperationKey.trimBase_trimBase]
    exact hbase.trimBase_cases
  · exact absurd (hpath ' ' hspace) (by decide)

/-- A file that has an operation is one of an operation. -/
theorem isOperation_of_operation {base : String} {parts : List String} {k : OperationKey}
    (h : (ofParts base parts).operation = some k) :
    (ofParts base parts).kind.isOperation = true := by
  rw [ofParts] at h ⊢
  split
  · next hstatic =>
    rw [if_pos hstatic] at h
    cases h
  · next hstatic =>
    rw [if_neg hstatic] at h
    simp only at h ⊢
    split
    · split <;> rfl
    · next hmethod =>
      simp only [hmethod] at h
      split at h <;> cases h

/-! ## Versions -/

theorem withoutExtension_ne_empty {name : String} (h : name ≠ "") :
    withoutExtension name ≠ "" := by
  rw [withoutExtension]
  split
  · rw [FilePath.stemOf]
    simp only
    split
    · exact h
    · next hempty =>
      intro hstem
      rw [← String.toList_inj, String.toList_ofList] at hstem
      simp [hstem] at hempty
  · exact h

/-- A name without its extension has no other characters. -/
theorem withoutExtension_subset (name : String) :
    (withoutExtension name).toList ⊆ name.toList := by
  rw [withoutExtension]
  split
  · rw [FilePath.stemOf]
    simp only
    split
    · exact List.Subset.refl _
    · rw [String.toList_ofList, Text.splitLast]
      exact List.take_subset _ _
  · exact List.Subset.refl _

/-- What holds of the segments of a path below the root, with or without extension, holds of its
parts. -/
theorem forall_mem_parts_of_below {P : String → Prop}
    (hstem : ∀ name, P name → P (withoutExtension name)) {root path : FilePath}
    (h : ∀ s ∈ (root.below? path).getD path.segments, P s) : ∀ part ∈ parts root path, P part := by
  intro part hpart
  rw [parts] at hpart
  split at hpart
  · next last hlast =>
    rcases List.mem_append.mp hpart with hpart | hpart
    · exact h part (List.dropLast_subset _ hpart)
    · rw [List.mem_singleton.mp hpart]
      exact hstem last (h last (List.mem_of_getLast? hlast))
  · cases hpart

/-- What holds of the segments of a path, with or without extension, holds of its parts. -/
theorem forall_mem_parts {P : String → Prop} (hstem : ∀ name, P name → P (withoutExtension name))
    {root path : FilePath} (h : ∀ s ∈ path.segments, P s) :
    ∀ part ∈ parts root path, P part :=
  forall_mem_parts_of_below hstem fun s hs => h s (mem_segments_of_mem_below hs)

theorem ne_empty_of_mem_parts {root path : FilePath} (h : ∀ s ∈ path.segments, s ≠ "")
    {part : String} (hpart : part ∈ parts root path) : part ≠ "" :=
  forall_mem_parts (P := (· ≠ "")) (fun _ => withoutExtension_ne_empty) h part hpart

theorem mem_of_version {base : String} {parts : List String} {v : String}
    (h : (ofParts base parts).version = some v) : v ∈ parts := by
  rw [ofParts] at h
  split at h
  · cases h
  · simp only at h
    split at h
    · split at h
      · cases h
      · have hafter := List.mem_reverse.mp (List.mem_of_getLast? h)
        exact List.mem_reverse.mp ((List.takeWhile_subset _) hafter)
    · split at h <;> cases h

/-- The version of a file that was found under a text has no slash. -/
theorem noSlash_of_version {root : FilePath} {text base v : String}
    (h : (ofPath root (FilePath.ofText text) base).version = some v) : '/' ∉ v.toList :=
  forall_mem_parts (P := fun s => '/' ∉ s.toList)
    (fun name hname hslash => hname (withoutExtension_subset name hslash))
    (fun _ hs => (FilePath.segments_ofText hs).2) v (mem_of_version h)

/-- What kind of file a path is does not depend on the base path. -/
theorem kind_ofParts (base other : String) (parts : List String) :
    (ofParts base parts).kind = (ofParts other parts).kind := by
  rw [ofParts, ofParts]
  split
  · rfl
  · simp only
    split
    · split <;> rfl
    · split <;> rfl

end Place
end ApiTree
