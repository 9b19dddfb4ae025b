import ApiTree.Proofs.Catalog.Resolution
import ApiTree.Proofs.Catalog.StaticFiles
import ApiTree.Proofs.Fragment.Spoiled

/-!
# Versions and ranges of versions

The versions of a tree are the tokens of its operation files in increasing order, and then the
draft. A range is found by the positions of its bounds in that list. It is the part of the versions
but the draft that lies after the one bound and up to the other, as far as these are versions
themselves (`versionRange_eq_filter`).
-/

set_option autoImplicit false

namespace ApiTree

/-! ## Ranges -/

namespace VersionRange

variable {dated : List String} {v : String}

/-- The version lies after the bound, if the bound is one of the versions. Nothing lies after the
draft. -/
def isAfter (dated : List String) (after : Option String) (v : String) : Bool :=
  after.all fun a => a ≠ draft && (a ∉ dated || a < v)

/-- The version does not lie after the bound, if the bound is one of the versions. -/
def isUpTo (dated : List String) (upTo : Option String) (v : String) : Bool :=
  upTo.all fun u => u ∉ dated || v ≤ u

/-- The version lies between the bounds. -/
def isBetween (dated : List String) (after upTo : Option String) (v : String) : Bool :=
  isAfter dated after v && isUpTo dated upTo v

/-- The position at which a range starts. -/
def start (versions : List String) (after : Option String) : Nat :=
  ((after.bind versions.idxOf?).map (· + 1)).getD 0

/-- The position before which a range stops. -/
def stop (versions : List String) (upTo : Option String) : Nat :=
  (((upTo.filter (· ≠ draft)).bind versions.idxOf?).map (· + 1)).getD (versions.length - 1)

theorem versionRange_eq (versions : List String) (after upTo : Option String) :
    versionRange versions after upTo =
      (versions.take (stop versions upTo)).drop (start versions after) :=
  rfl

/-- Of increasing texts the smaller one stands before the greater. -/
theorem lt_iff_of_getElem? {l : List String} (hl : l.Pairwise (· < ·)) {i j : Nat} {a b : String}
    (ha : l[i]? = some a) (hb : l[j]? = some b) : a < b ↔ i < j := by
  obtain ⟨hi, rfl⟩ := List.getElem?_eq_some_iff.mp ha
  obtain ⟨hj, rfl⟩ := List.getElem?_eq_some_iff.mp hb
  rw [List.pairwise_iff_getElem] at hl
  constructor
  · intro hlt
    by_contra hnot
    rcases (Nat.not_lt.mp hnot).lt_or_eq with h | rfl
    · exact lt_asymm hlt (hl j i hj hi h)
    · exact lt_irrefl _ hlt
  · exact hl i j hi hj

/-- A version with a position is the draft at the end or one of the others. -/
theorem idxOf?_cases {i : Nat} (h : (dated ++ [draft]).idxOf? v = some i) :
    dated[i]? = some v ∨ v = draft ∧ i = dated.length := by
  obtain ⟨hi, hv, -⟩ := List.idxOf?_eq_some_iff.mp h
  rw [List.length_append, List.length_singleton] at hi
  rcases (Nat.lt_succ_iff.mp hi).lt_or_eq with hlt | rfl
  · rw [List.getElem_append_left hlt] at hv
    exact .inl (List.getElem?_eq_some_iff.mpr ⟨hlt, hv⟩)
  · rw [List.getElem_concat_length rfl] at hv
    exact .inr ⟨hv.symm, rfl⟩

variable (hdated : dated.Pairwise (· < ·)) (hdraft : draft ∉ dated)

include hdated hdraft

theorem start_le_iff {n : Nat} (hv : dated[n]? = some v) (after : Option String) :
    start (dated ++ [draft]) after ≤ n ↔ isAfter dated after v = true := by
  cases after with
  | none => simp [start, isAfter]
  | some a =>
    rw [start, isAfter, Option.bind_some, Option.all_some]
    cases hi : (dated ++ [draft]).idxOf? a with
    | none =>
      -- a bound that is no version bounds nothing
      rw [List.idxOf?_eq_none_iff, List.mem_append, List.mem_singleton, not_or] at hi
      simp [hi]
    | some i =>
      rcases idxOf?_cases hi with ha | ⟨rfl, rfl⟩
      · have hmem : a ∈ dated := List.mem_of_getElem? ha
        have hne : a ≠ draft := fun h => hdraft (h ▸ hmem)
        simp [hmem, hne, lt_iff_of_getElem? hdated ha hv]
      · -- the draft comes after every other version
        have hn : n < dated.length := (List.getElem?_eq_some_iff.mp hv).1
        simp [hn.le.trans]

omit hdated in
/-- A range stops after its bound, or at the draft if the bound is none of the other versions. -/
theorem stop_cases (upTo : Option String) :
    (stop (dated ++ [draft]) upTo = dated.length ∧ ∀ u ∈ upTo, u ∉ dated) ∨
      ∃ u i, upTo = some u ∧ dated[i]? = some u ∧ stop (dated ++ [draft]) upTo = i + 1 := by
  have hlast : (dated ++ [draft]).length - 1 = dated.length := by
    rw [List.length_append, List.length_singleton, Nat.add_sub_cancel]
  rw [stop, hlast]
  cases upTo with
  | none => exact .inl ⟨rfl, fun u hu => by cases hu⟩
  | some u =>
    by_cases hu : u = draft
    · -- the draft counts as no bound, as it is in no range
      rw [Option.filter_some, if_neg (by simp [hu])]
      refine .inl ⟨rfl, fun w hw => ?_⟩
      rw [← Option.some.inj hw, hu]
      exact hdraft
    · rw [Option.filter_some, if_pos (by simp [hu]), Option.bind_some]
      cases hi : (dated ++ [draft]).idxOf? u with
      | none =>
        rw [List.idxOf?_eq_none_iff, List.mem_append, not_or] at hi
        refine .inl ⟨rfl, fun w hw => ?_⟩
        rw [← Option.some.inj hw]
        exact hi.1
      | some i =>
        rcases idxOf?_cases hi with hmem | ⟨hfalse, -⟩
        · exact .inr ⟨u, i, rfl, hmem, rfl⟩
        · exact absurd hfalse hu

omit hdated in
theorem stop_le (upTo : Option String) : stop (dated ++ [draft]) upTo ≤ dated.length := by
  rcases stop_cases hdraft upTo with ⟨hstop, -⟩ | ⟨u, i, -, hu, hstop⟩
  · exact hstop.le
  · rw [hstop]
    exact (List.getElem?_eq_some_iff.mp hu).1

theorem lt_stop_iff {n : Nat} (hv : dated[n]? = some v) (upTo : Option String) :
    n < stop (dated ++ [draft]) upTo ↔ isUpTo dated upTo v = true := by
  rcases stop_cases hdraft upTo with ⟨hstop, hnone⟩ | ⟨u, i, rfl, hu, hstop⟩
  · have hn : n < dated.length := (List.getElem?_eq_some_iff.mp hv).1
    rw [hstop, isUpTo, Option.all_eq_true]
    refine iff_of_true hn fun u hu => ?_
    simp [hnone u hu]
  · rw [hstop, isUpTo, Option.all_some, Nat.lt_succ_iff, ← Nat.not_lt,
      ← lt_iff_of_getElem? hdated hu hv, not_lt]
    simp [List.mem_of_getElem? hu]

/-- A range is, in order, the part of the versions but the draft that lies between its bounds. -/
theorem versionRange_eq_filter (after upTo : Option String) :
    versionRange (dated ++ [draft]) after upTo =
      dated.filter (isBetween dated after upTo) := by
  rw [versionRange_eq, List.take_append_of_le_length (stop_le hdraft upTo)]
  have hsub : ((dated.take (stop (dated ++ [draft]) upTo)).drop
      (start (dated ++ [draft]) after)).Sublist dated :=
    (List.drop_sublist _ _).trans (List.take_sublist _ _)
  refine (hdated.sublist hsub).eq_of_mem_iff (hdated.filter _) fun v => ?_
  -- an element is in the range if its position is between those of the bounds
  rw [List.mem_filter, isBetween, Bool.and_eq_true, List.mem_iff_getElem?]
  constructor
  · rintro ⟨m, hm⟩
    rw [List.getElem?_drop, List.getElem?_take] at hm
    split at hm
    · next hlt =>
      exact ⟨List.mem_of_getElem? hm,
        (start_le_iff hdated hdraft hm after).mp (Nat.le_add_right _ m),
        (lt_stop_iff hdated hdraft hm upTo).mp hlt⟩
    · cases hm
  · rintro ⟨hmem, hafter, hupTo⟩
    obtain ⟨n, hn⟩ := List.mem_iff_getElem?.mp hmem
    have hle := (start_le_iff hdated hdraft hn after).mpr hafter
    have hlt := (lt_stop_iff hdated hdraft hn upTo).mpr hupTo
    refine ⟨n - start (dated ++ [draft]) after, ?_⟩
    rw [List.getElem?_drop, List.getElem?_take, Nat.add_sub_cancel' hle, if_pos hlt, hn]

/-- The range up to a version and the range after it make up the range without bounds. -/
theorem filter_upTo_append_filter_after (hv : v ∈ dated) :
    dated.filter (isBetween dated none none) =
      dated.filter (isBetween dated none (some v)) ++
        dated.filter (isBetween dated (some v) none) := by
  have hne : v ≠ draft := fun h => hdraft (h ▸ hv)
  have hupTo (w : String) : isBetween dated none (some v) w = true ↔ w ≤ v := by
    simp [isBetween, isAfter, isUpTo, hv]
  have hafter (w : String) : isBetween dated (some v) none w = true ↔ v < w := by
    simp [isBetween, isAfter, isUpTo, hv, hne]
  refine (hdated.filter _).eq_of_mem_iff (List.pairwise_append.mpr
    ⟨hdated.filter _, hdated.filter _, fun a ha b hb => ?_⟩) fun w => ?_
  · have hle := (hupTo a).mp (List.mem_filter.mp ha).2
    exact hle.trans_lt ((hafter b).mp (List.mem_filter.mp hb).2)
  · rw [List.mem_append, List.mem_filter, List.mem_filter, List.mem_filter, hupTo, hafter,
      ← and_or_left]
    exact and_congr_right fun _ => iff_of_true rfl (le_or_gt w v)

end VersionRange

/-! ## The versions of a tree -/

namespace OperationTable

variable {d : Disk} {root : FilePath} {base : String}

theorem exists_operation_iff {p : FilePath} :
    (∃ k, (Place.ofPath root p base).operation = some k) ↔
      (Place.ofPath root p base).kind.isOperation = true := by
  constructor
  · rintro ⟨k, hk⟩
    exact Place.isOperation_of_operation hk
  · intro hkind
    rw [Place.ofPath] at hkind ⊢
    rcases Place.ofParts_cases base (Place.parts root p) with
      ⟨k, hk, -⟩ | ⟨kind, hplace⟩ | hplace | hplace
    · exact ⟨k, hk⟩
    all_goals
      rw [hplace] at hkind
      cases hkind

/-- The versions of a tree but the draft are the tokens of its operation files. -/
theorem mem_datedVersions_of_build {table : OperationTable} (hd : d.Sound) (hroot : root.IsProper)
    (hload : Fragment.OperationsLoad d root base)
    (h : (build d root base).collect.1 = .ok table) {v : String} :
    v ∈ table.datedVersions ↔ v ≠ draft ∧ ∃ p ∈ Fragment.discover d root,
      (Place.ofPath root p base).kind.isOperation = true ∧
        versionOrDraft (Place.ofPath root p base).version = v := by
  obtain ⟨same, hsame, hof⟩ := exists_build (readable_files hd hroot hload)
  obtain rfl : table = same := Except.ok.inj (h.symm.trans hsame)
  rw [mem_datedVersions]
  refine and_congr_right fun _ => ⟨?_, ?_⟩
  · rintro ⟨⟨k, fragments⟩, hmem, hv⟩
    have hfragments := Entries.get?_of_mem hof.nodup hmem
    obtain ⟨p, hp, hkey, hversion⟩ := Fragment.filesOf_ne_nil_iff.mp
      ((mem_versions_of_build hd hroot hload h hfragments).mp hv)
    exact ⟨p, hp, exists_operation_iff.mp ⟨k, hkey⟩, hversion⟩
  · rintro ⟨p, hp, hkind, hversion⟩
    obtain ⟨k, hkey⟩ := exists_operation_iff.mpr hkind
    obtain ⟨fragments, hfragments⟩ := Entries.exists_get?_of_mem_keys
      ((mem_keys_build hd hroot hload h).mpr ⟨p, hp, hkey⟩)
    refine ⟨(k, fragments), Entries.mem_of_get? hfragments, ?_⟩
    exact (mem_versions_of_build hd hroot hload h hfragments).mpr
      (Fragment.filesOf_ne_nil_iff.mpr ⟨p, hp, hkey, hversion⟩)

end OperationTable

namespace Catalog

variable {c : Catalog} (hc : c.forget = c) {d : Disk} {versions : List String}
  (hversions : c.readVersions d = .ok versions)

include hc hversions

theorem freshAnswer_versions : c.freshAnswer d .versions = .ok (.texts versions) := by
  have hgives := ((remembers_start c d hc).gives_versions.map Answer.texts).1
  rw [freshAnswer, hc]
  exact hgives.trans (congrArg _ hversions)

theorem freshAnswer_latest : c.freshAnswer d .latest = (c.latestOf versions).map .text := by
  have hgives := ((remembers_start c d hc).gives_latest.map Answer.text).1
  rw [freshAnswer, hc]
  refine hgives.trans (congrArg _ ?_)
  rw [History.tableTree, Option.getD_none, hversions]
  rfl

theorem fst_exec_range (after upTo : Option String) :
    (exec (Run.range after upTo) { disk := d, catalog := c }).1 =
      .ok (versionRange versions after upTo) := by
  refine ((remembers_start c d hc).gives_range after upTo).1.trans ?_
  rw [History.tableTree, Option.getD_none, hversions]
  rfl

theorem freshAnswer_range (after upTo : Option String) :
    c.freshAnswer d (.range after upTo) = .ok (.texts (versionRange versions after upTo)) := by
  rw [freshAnswer, hc, Query.ask, exec_map, fst_exec_range hc hversions]
  rfl

theorem freshAnswer_rangeFor {metadata : Value} {fields : Fields}
    (hm : metadata.orElse (.map []) = .map fields) :
    c.freshAnswer d (.rangeFor metadata) = .ok (.texts
      (if (Fields.getD "draft" fields).isTruthy || c.draftOnly then [draft]
      else (versionRange versions (Run.versionOfValue (Fields.getD "after" fields))
        (Run.versionOfValue (Fields.getD "until" fields))).reverse)) := by
  rw [freshAnswer, hc, Query.ask, exec_map, exec_rangeFor hm]
  split
  · rfl
  · rw [exec_map, fst_exec_range hc hversions]
    rfl

end Catalog

open VersionRange

/-- The versions of a tree whose operations load are the tokens of its operation files but the
draft, in strictly increasing order, and then the draft. The latest version is the last one before
the draft; without one there is a fault. A range holds, in order, the versions but the draft that
lie after the one bound and up to the other, as far as these are such versions, and none if it is to
start after the draft. The range up to a version and the range after it make up the range without
bounds. With metadata for an operation the range is reversed, or it is the draft alone if the
catalog or the metadata say so. -/
theorem Catalog.versions_of_tree {c : Catalog} {rootText base : String} {draftOnly : Bool}
    {exclusions : Option (List String)}
    (hc : c = Catalog.make (FilePath.ofText rootText) base draftOnly exclusions) {d : Disk}
    (hd : d.Sound) (hload : Fragment.OperationsLoad d c.root c.base) :
    ∃ dated : List String, dated.Pairwise (· < ·) ∧
      (∀ v, v ∈ dated ↔ v ≠ draft ∧ ∃ p ∈ Fragment.discover d c.root,
        (Place.ofPath c.root p c.base).kind.isOperation = true ∧
          versionOrDraft (Place.ofPath c.root p c.base).version = v) ∧
      c.freshAnswer d .versions = .ok (.texts (dated ++ [draft])) ∧
      c.freshAnswer d .latest = (match dated.getLast? with
        | some v => .ok (.text v)
        | none => .error (.noVersions c.root.render)) ∧
      (∀ after upTo, draft ∉ dated.filter (isBetween dated after upTo) ∧
        c.freshAnswer d (.range after upTo) =
          .ok (.texts (dated.filter (isBetween dated after upTo)))) ∧
      (∀ v ∈ dated, ∃ earlier later,
        c.freshAnswer d (.range none (some v)) = .ok (.texts earlier) ∧
        c.freshAnswer d (.range (some v) none) = .ok (.texts later) ∧
        c.freshAnswer d (.range none none) = .ok (.texts (earlier ++ later))) ∧
      ∀ metadata : Option Fields,
        let fields := metadata.getD []
        c.freshAnswer d (.rangeFor (metadata.elim .null .map)) = .ok (.texts
          (if (Fields.getD "draft" fields).isTruthy || draftOnly then [draft]
          else (dated.filter (isBetween dated (Run.versionOfValue (Fields.getD "after" fields))
            (Run.versionOfValue (Fields.getD "until" fields)))).reverse)) := by
  have hroot : c.root.IsProper := by rw [hc]; exact FilePath.isProper_ofText rootText
  have hforget : c.forget = c := by rw [hc]; rfl
  obtain ⟨table, htable, -⟩ :=
    OperationTable.exists_build (OperationTable.readable_files hd hroot hload)
  have hversions : c.readVersions d = .ok (table.datedVersions ++ [draft]) :=
    congrArg (Except.map OperationTable.versions) htable
  have hdated := table.pairwise_datedVersions
  have hmem {v : String} := OperationTable.mem_datedVersions_of_build hd hroot hload htable (v := v)
  have hdraft : draft ∉ table.datedVersions := fun h => (hmem.mp h).1 rfl
  have hrange (after upTo : Option String) : c.freshAnswer d (.range after upTo) =
      .ok (.texts (table.datedVersions.filter (isBetween table.datedVersions after upTo))) := by
    rw [Catalog.freshAnswer_range hforget hversions, versionRange_eq_filter hdated hdraft]
  refine ⟨table.datedVersions, hdated, fun v => hmem,
    Catalog.freshAnswer_versions hforget hversions, ?_,
    fun after upTo => ⟨fun h => hdraft (List.mem_of_mem_filter h), hrange after upTo⟩,
    fun v hv => ?_, fun metadata => ?_⟩
  · rw [Catalog.freshAnswer_latest hforget hversions, Catalog.latestOf, List.dropLast_concat]
    cases table.datedVersions.getLast? <;> rfl
  · refine ⟨_, _, hrange none (some v), hrange (some v) none, ?_⟩
    rw [hrange, filter_upTo_append_filter_after hdated hdraft hv]
  · have hm : (metadata.elim Value.null .map).orElse (.map []) = .map (metadata.getD []) := by
      rcases metadata with - | (- | ⟨e, fields⟩) <;> rfl
    rw [Catalog.freshAnswer_rangeFor hforget hversions hm, versionRange_eq_filter hdated hdraft]
    rw [hc]
    rfl

/-! ## A tree with two versions -/

theorem operationsLoad_releases :
    Fragment.OperationsLoad releases releasesCatalog.root releasesCatalog.base := by
  intro p hp _
  rw [discover_releases] at hp
  simp only [List.mem_cons, List.not_mem_nil, or_false] at hp
  rcases hp with rfl | rfl | rfl | rfl
  all_goals exact ⟨[], Fragment.read_of_braces rfl⟩

/-- The word comes after the date. The draft bounds a range from below and not from above, and a
bound that is no version bounds nothing. -/
theorem versions_of_tree_releases :
    let c := Catalog.make (FilePath.ofText ".") "/api" false
    c.freshAnswer releases .versions = .ok (.texts ["20210301", "beta", "draft"]) ∧
      c.freshAnswer releases .latest = .ok (.text "beta") ∧
      c.freshAnswer releases (.range (some "20210301") (some "draft")) = .ok (.texts ["beta"]) ∧
      c.freshAnswer releases (.range (some "draft") (some "beta")) = .ok (.texts []) ∧
      c.freshAnswer releases (.rangeFor (.map [("after", .str "1999"), ("until", .str "beta")])) =
        .ok (.texts ["beta", "20210301"]) ∧
      c.freshAnswer releases (.rangeFor (.map [("draft", .bool true)])) =
        .ok (.texts ["draft"]) := by
  intro c
  obtain ⟨dated, -, -, hversions, hlatest, hrange, -, hrangeFor⟩ :=
    Catalog.versions_of_tree (c := c) rfl sound_releases operationsLoad_releases
  have hanswer : c.freshAnswer releases .versions = .ok (.texts ["20210301", "beta", "draft"]) :=
    Catalog.freshAnswer_versions rfl readVersions_releases
  have hall : dated ++ [draft] = ["20210301", "beta"] ++ [draft] :=
    Answer.texts.inj (Except.ok.inj (hversions.symm.trans hanswer))
  obtain rfl := List.append_cancel_right hall
  refine ⟨hanswer, hlatest, (hrange _ _).2, (hrange _ _).2, ?_, ?_⟩
  · exact hrangeFor (some [("after", .str "1999"), ("until", .str "beta")])
  · exact hrangeFor (some [("draft", .bool true)])

end ApiTree
