import ApiTree.Proofs.Catalog.History
import ApiTree.Proofs.Catalog.Versions

/-!
# Answers go back to snapshots

Every question to a catalog is answered as by a catalog that remembers nothing on the tree that its
history names, and leaves the catalog with what was read from the trees of the history after it.
This is shown for each question, then for each step of a session, and by induction for any steps.
-/

set_option autoImplicit false

namespace ApiTree

open Run

section Steps

variable {c : Catalog} {h : History} {s : Session}

/-! ## Questions about versions and operations -/

theorem Remembers.gives_latest (hr : Remembers c h s) :
    Gives c (h.readTable c) Run.latest s
      (c.readVersions h.tableTree >>= c.latestOf) := by
  refine hr.gives_versions.bind fun vs t ht => ?_
  rw [Catalog.latestOf]
  cases vs.dropLast.getLast? with
  | some v => exact ht.gives_pure v
  | none =>
    -- the fault names the root, which no step changes
    rw [← ht.root_eq]
    exact ⟨rfl, ht⟩

theorem Remembers.gives_range (hr : Remembers c h s) (after upTo : Option String) :
    Gives c (h.readTable c) (Run.range after upTo) s
      (c.readVersions h.tableTree >>= fun vs => .ok (versionRange vs after upTo)) :=
  hr.gives_versions.bind fun vs _ ht => ht.gives_pure (versionRange vs after upTo)

theorem Remembers.gives_operations (hr : Remembers c h s) :
    Gives c (h.readTable c) Run.operations s
      (c.readTable h.tableTree >>= fun t => .ok t.operations) :=
  hr.gives_table.bind fun t _ ht => ht.gives_pure t.operations

theorem Remembers.gives_resolve (hr : Remembers c h s) (key : OperationKey)
    (version : Option String) :
    Gives c (h.readTable c) (Run.resolve key version) s
      (c.readTable h.tableTree >>= fun t => t.resolve key version) :=
  hr.gives_table.bind fun t _ ht => ht.gives_liftM (t.resolve key version)

/-- With metadata that are a mapping the range is the draft, or looked up and reversed. -/
theorem exec_rangeFor {metadata : Value} {fields : Fields}
    (hm : metadata.orElse (.map []) = .map fields) (s : Session) :
    exec (Run.rangeFor metadata) s =
      if (Fields.getD "draft" fields).isTruthy || s.catalog.draftOnly then (.ok [draft], s)
      else exec (List.reverse <$> Run.range (Run.versionOfValue (Fields.getD "after" fields))
        (Run.versionOfValue (Fields.getD "until" fields))) s := by
  rw [Run.rangeFor, hm]
  simp only [Value.lookup, Except.mapError, exec_bind, exec_liftM, exec_catalog]
  split
  · rfl
  · simp only [exec_bind, exec_liftM, exec_pure, exec_map]
    rcases exec (Run.range _ _) s with ⟨f | vs, t⟩ <;> rfl

/-- The range for the given metadata is the draft, or a failure, or looked up in the table. -/
theorem rangeFor_cases (c : Catalog) (metadata : Value) :
    (c.looksUpVersions metadata = false ∧ ∃ r, ∀ h s, Remembers c h s →
      Gives c h (Run.rangeFor metadata) s r) ∨
    (c.looksUpVersions metadata = true ∧ ∃ after upTo, ∀ s : Session, s.catalog.forget = c →
      exec (Run.rangeFor metadata) s = exec (List.reverse <$> Run.range after upTo) s) := by
  -- only a mapping is looked into; anything else fails before the catalog is asked
  cases hm : metadata.orElse (.map []) with
  | map fields =>
    cases hd : (Fields.getD "draft" fields).isTruthy || c.draftOnly with
    | true =>
      refine .inl ⟨by simp [Catalog.looksUpVersions, hm, hd], .ok [draft], fun h s hr => ?_⟩
      rw [Gives, exec_rangeFor hm, hr.draftOnly_eq, if_pos hd]
      exact ⟨rfl, hr⟩
    | false =>
      refine .inr ⟨by simp [Catalog.looksUpVersions, hm, hd],
        Run.versionOfValue (Fields.getD "after" fields),
        Run.versionOfValue (Fields.getD "until" fields), fun s hs => ?_⟩
      have hdraft : s.catalog.draftOnly = c.draftOnly := by rw [← hs]; rfl
      rw [exec_rangeFor hm, hdraft, hd, if_neg Bool.false_ne_true]
  | _ =>
    refine .inl ⟨by simp [Catalog.looksUpVersions, hm], .error (.failed .noMember),
      fun h s hr => ?_⟩
    rw [Gives, Run.rangeFor, hm]
    exact ⟨rfl, hr⟩

theorem History.tableTree_readStatic (c : Catalog) (h : History) (version : String) :
    (h.readStatic c version).tableTree = h.tableTree := by
  rw [History.readStatic]
  cases c.readStatic (h.staticTree version) version <;> rfl

theorem Remembers.gives_build (hr : Remembers c h s) (version : String)
    (legacyPrefixes : List String) :
    Gives c (h.after c (.build version legacyPrefixes)) (Document.build version legacyPrefixes) s
      (c.builtFrom (h.staticTree version) h.tableTree version legacyPrefixes) := by
  obtain ⟨hanswer, hkept⟩ := hr.gives_staticDocument version
  rw [Gives, History.after, Catalog.builtFrom, Document.build, exec_bind, ← hanswer]
  -- the static part is made first, and a failure of it ends the build
  rcases hx : exec (Run.staticDocument version) s with ⟨f | document, t⟩
  · rw [hx] at hanswer hkept
    simp only [History.readStatic, ← hanswer] at hkept
    exact ⟨rfl, hkept⟩
  · rw [hx] at hkept
    -- making it has left the tree of the table as it was
    have htable := hkept.gives_table
    rw [History.tableTree_readStatic] at htable
    refine htable.bind (g := fun table => do
      let paths ← (Document.paths table c.base (Fields.getD "components" document) version
        legacyPrefixes).collect.1
      return Value.mergeEntries document [("paths", .map paths)]) fun table u hu => ?_
    rw [Gives, exec_bind, exec_catalog, ← hu.base_eq]
    simp only [exec_bind, exec_ofLogged]
    rcases (Document.paths _ _ _ _ _).collect with ⟨f | paths, lines⟩
    · exact ⟨rfl, hu.with_events _⟩
    · exact ⟨rfl, hu.with_events _⟩

/-! ## Every question and every step -/

/-- The answer to a question about versions and operations depends on what is read as the table. -/
theorem exists_answer_of_table (c : Catalog) (q : Query)
    (hstatic : ∀ version, q ≠ .staticDocument version)
    (hbuild : ∀ version legacyPrefixes, q ≠ .build version legacyPrefixes) :
    ∃ answer : Except Fault OperationTable → Except Fault Answer, ∀ h s, Remembers c h s →
      Gives c (h.after c q) q.ask s (answer (c.readTable h.tableTree)) := by
  cases q with
  | versions =>
    exact ⟨fun r => (r.map OperationTable.versions).map .texts,
      fun h s hr => hr.gives_versions.map _⟩
  | latest =>
    exact ⟨fun r => (r.map OperationTable.versions >>= c.latestOf).map .text,
      fun h s hr => hr.gives_latest.map _⟩
  | range after upTo =>
    exact ⟨fun r => (r.map OperationTable.versions >>= fun vs =>
      .ok (versionRange vs after upTo)).map .texts, fun h s hr => (hr.gives_range after upTo).map _⟩
  | rangeFor metadata =>
    -- metadata that ask for the draft read no tree, so that the history stays as it is
    obtain ⟨hlook, r, hgives⟩ | ⟨hlook, after, upTo, hexec⟩ := rangeFor_cases c metadata
    · refine ⟨fun _ => r.map .texts, fun h s hr => ?_⟩
      simp only [History.after, hlook, Bool.false_eq_true, if_false]
      exact (hgives h s hr).map _
    · refine ⟨fun r => ((r.map OperationTable.versions >>= fun vs =>
        .ok (versionRange vs after upTo)).map List.reverse).map .texts, fun h s hr => ?_⟩
      simp only [History.after, hlook, if_true]
      have hgives := (hr.gives_range after upTo).map List.reverse
      rw [Gives, ← hexec s hr.settings] at hgives
      exact Gives.map hgives _
  | operations =>
    exact ⟨fun r => (r >>= fun t => .ok t.operations).map .keys,
      fun h s hr => hr.gives_operations.map _⟩
  | resolve operation version =>
    let key := operation.elim (OperationKey.parse · c.base) id
    refine ⟨fun r => (r >>= fun t => t.resolve key version).map .fields, fun h s hr => ?_⟩
    rw [Query.ask, Gives, exec_bind, exec_catalog]
    simp only [hr.base_eq]
    exact (hr.gives_resolve key version).map _
  | staticDocument version => exact absurd rfl (hstatic version)
  | build version legacyPrefixes => exact absurd rfl (hbuild version legacyPrefixes)

theorem Remembers.forget_eq (hr : Remembers c h s) : c.forget = c := by
  rw [← hr.settings]; rfl

/-- A question about versions and operations is answered as by a catalog that remembers nothing. -/
theorem Remembers.gives_answer_of_tree (hr : Remembers c h s) (q : Query)
    (hstatic : ∀ version, q ≠ .staticDocument version)
    (hbuild : ∀ version legacyPrefixes, q ≠ .build version legacyPrefixes) :
    Gives c (h.after c q) q.ask s (c.freshAnswer h.tableTree q) := by
  obtain ⟨answer, hgives⟩ := exists_answer_of_table c q hstatic hbuild
  -- a history that starts on the tree of the table has that tree as its own tree of the table
  have hfresh := hgives _ _ (remembers_start c h.tableTree hr.forget_eq)
  rw [Catalog.freshAnswer, hr.forget_eq, hfresh.1]
  exact hgives h s hr

/-- A question is answered as the history promises, and what is remembered then goes back to the
history after it. -/
theorem Remembers.gives_answer (hr : Remembers c h s) (q : Query) :
    Gives c (h.after c q) q.ask s (h.answer c q) := by
  cases q with
  | staticDocument version =>
    have hfresh :=
      (remembers_start c (h.staticTree version) hr.forget_eq).gives_staticDocument version
    have hanswer := (hfresh.map Answer.fields).1
    rw [History.answer, Catalog.freshAnswer, hr.forget_eq, Query.ask, hanswer]
    exact (hr.gives_staticDocument version).map _
  | build version legacyPrefixes => exact (hr.gives_build version legacyPrefixes).map _
  | _ => exact hr.gives_answer_of_tree _ (by rintro v ⟨⟩) (by rintro v l ⟨⟩)

/-- A document whose two parts are from one tree is the one that a catalog that remembers nothing
builds on it. -/
theorem freshAnswer_build (c : Catalog) (d : Disk) (version : String)
    (legacyPrefixes : List String) :
    c.freshAnswer d (.build version legacyPrefixes) =
      .fields <$> c.builtFrom d d version legacyPrefixes :=
  ((remembers_start c.forget d rfl).gives_build version legacyPrefixes |>.map Answer.fields).1

theorem Remembers.perform (hr : Remembers c h s) (step : Session.Step) :
    Remembers c (h.step c step) (s.perform step) := by
  cases step with
  | edit change =>
    refine ⟨?_, hr.settings, hr.table, hr.readable, hr.versions, hr.static, hr.makeable⟩
    exact congrArg change hr.disk
  | clear =>
    -- forgetting starts a new history on the tree of now
    have hstart := remembers_start c s.disk hr.forget_eq
    rw [Session.perform, exec_clear, hr.settings]
    rw [hr.disk] at hstart
    exact ⟨hr.disk, hr.forget_eq, hstart.table, hstart.readable, hstart.versions, hstart.static,
      hstart.makeable⟩
  | ask query => exact (hr.gives_answer query).2

end Steps

/-- What is remembered goes back to the history after any steps. -/
theorem Remembers.run {c : Catalog} {h : History} {s : Session} (hr : Remembers c h s)
    (steps : List Session.Step) :
    Remembers c (steps.foldl (History.step c) h) (steps.foldl Session.perform s) := by
  -- the history goes along with the session, step by step
  induction steps generalizing h s with
  | nil => exact hr
  | cons step steps ih => exact ih (hr.perform step)

/-- Answers go back to snapshots. After any steps from a new catalog every question is answered as a
catalog that remembers nothing answers it on the tree that the history names, a document being built
from one tree for its static part and one for its operations. What the catalog remembers is the
table and the static parts that were read from those trees, and of the versions those of the table:
the tokens of its fragments but the draft in strictly increasing order, and then the draft. -/
theorem answers_of_history (root : FilePath) (base : String) (draftOnly : Bool)
    (exclusions : Option (List String)) (disk : Disk) (steps : List Session.Step) :
    let c := Catalog.make root base draftOnly exclusions
    let h := steps.foldl (History.step c) { disk }
    let s := steps.foldl Session.perform { disk, catalog := c }
    (∀ q, (exec q.ask s).1 = h.answer c q) ∧
    (∀ d version legacyPrefixes, c.freshAnswer d (.build version legacyPrefixes) =
      .fields <$> c.builtFrom d d version legacyPrefixes) ∧
    (∀ t, s.catalog.table? = some t ↔ ∃ d, h.tableTree? = some d ∧ c.readTable d = .ok t) ∧
    (∀ version document, Entries.get? version s.catalog.statics = some document ↔
      ∃ d, h.staticTree? version = some d ∧ c.readStatic d version = .ok document) ∧
    ∀ vs, s.catalog.versions? = some vs → ∃ t dated, s.catalog.table? = some t ∧
      vs = dated ++ [draft] ∧ dated.Pairwise (· < ·) ∧
      ∀ v, v ∈ dated ↔ v ≠ draft ∧ ∃ e ∈ t, v ∈ Entries.keys e.2 := by
  intro c h s
  have hr : Remembers c h s := (remembers_start c disk rfl).run steps
  refine ⟨fun q => (hr.gives_answer q).1, freshAnswer_build c, hr.table, hr.static, ?_⟩
  intro vs hvs
  obtain ⟨t, ht, rfl⟩ := hr.versions vs hvs
  exact ⟨t, t.datedVersions, ht, rfl, t.pairwise_datedVersions, t.mem_datedVersions⟩

end ApiTree
