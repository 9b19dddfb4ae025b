import ApiTree.Proofs.Catalog.Publish
import ApiTree.Proofs.Catalog.Snapshot

/-!
# Histories that answer alike

What a catalog answers goes back to what it reads as the table and as static parts. Two histories
that read the same, from whatever trees, give the same answers, now and after the catalog forgets
(`answer_eq`). Asking changes nothing of what is read, and neither does writing files that are no
fragments (`sameAnswers_edit`).
-/

set_option autoImplicit false

namespace ApiTree

variable {c : Catalog} {h h' h'' : History} {s s' : Session} {d d' : Disk}

/-! ## Reading trees with the same fragments -/

/-- Files that are read alike make one table. -/
theorem OperationTable.foldlM_addLoaded_congr {root : FilePath} {base : String}
    {paths : List FilePath}
    (h : ∀ q ∈ paths,
      Fragment.read d' (FilePath.ofText q.render) = Fragment.read d (FilePath.ofText q.render))
    (table : OperationTable) :
    paths.foldlM (addLoaded d' root base) table = paths.foldlM (addLoaded d root base) table := by
  induction paths generalizing table with
  | nil => rfl
  | cons q paths ih =>
    rw [List.forall_mem_cons] at h
    rw [List.foldlM_cons, List.foldlM_cons, addLoaded_congr h.1]
    exact congrArg _ (funext (ih h.2))

/-- A tree whose fragments stay is read as it was. -/
theorem Catalog.read_of_keeps (c : Catalog) (hroot : c.root.IsProper) (hd : d.Sound)
    (hd' : d'.Sound) (h : d.Keeps d')
    (hback : d.isDirectory c.root = true ∨ ".." ∉ c.root.segments) :
    c.readTable d' = c.readTable d ∧ ∀ version, c.readStatic d' version = c.readStatic d version := by
  obtain ⟨hdiscover, hreads⟩ := Fragment.discover_of_keeps hd hd' h hback
  have hread (q : FilePath) (hq : q ∈ Fragment.discover d c.root) :
      Fragment.read d' (FilePath.ofText q.render) = Fragment.read d (FilePath.ofText q.render) := by
    rw [Fragment.ofText_render_of_mem hd hroot hq]
    exact Fragment.read_congr (hreads q hq)
  refine ⟨?_, fun version => c.readStatic_congr ?_ fun q hq =>
    hread q (StaticPart.mem_files.mp hq).1⟩
  · rw [readTable, readTable, OperationTable.collect_build, OperationTable.collect_build,
      OperationTable.files, OperationTable.files, hdiscover]
    exact OperationTable.foldlM_addLoaded_congr
      (fun q hq => hread q (List.mem_of_mem_filter hq)) []
  · rw [StaticPart.files, StaticPart.files, hdiscover]

/-! ## What histories read -/

/-- Two histories read the same, as they are and once the catalog forgets. -/
structure SameAnswers (c : Catalog) (h h' : History) : Prop where
  table : c.readTable h'.tableTree = c.readTable h.tableTree
  static : ∀ version,
    c.readStatic (h'.staticTree version) version = c.readStatic (h.staticTree version) version
  tableNow : c.readTable h'.disk = c.readTable h.disk
  staticNow : ∀ version, c.readStatic h'.disk version = c.readStatic h.disk version

theorem SameAnswers.refl (c : Catalog) (h : History) : SameAnswers c h h :=
  ⟨rfl, fun _ => rfl, rfl, fun _ => rfl⟩

theorem SameAnswers.symm (hsame : SameAnswers c h h') : SameAnswers c h' h :=
  ⟨hsame.table.symm, fun version => (hsame.static version).symm, hsame.tableNow.symm,
    fun version => (hsame.staticNow version).symm⟩

theorem SameAnswers.trans (hfirst : SameAnswers c h h') (hsecond : SameAnswers c h' h'') :
    SameAnswers c h h'' :=
  ⟨hsecond.table.trans hfirst.table,
    fun version => (hsecond.static version).trans (hfirst.static version),
    hsecond.tableNow.trans hfirst.tableNow,
    fun version => (hsecond.staticNow version).trans (hfirst.staticNow version)⟩

/-- What is read once the catalog forgets. -/
theorem SameAnswers.clear (hsame : SameAnswers c h h') :
    SameAnswers c { disk := h.disk } { disk := h'.disk } :=
  ⟨hsame.tableNow, hsame.staticNow, hsame.tableNow, hsame.staticNow⟩

theorem History.tree_readTable (c : Catalog) (h : History) :
    (h.readTable c).tableTree = h.tableTree ∧ (h.readTable c).staticTree = h.staticTree ∧
      (h.readTable c).disk = h.disk := by
  rw [History.readTable]
  cases c.readTable h.tableTree with
  | error fault => exact ⟨rfl, rfl, rfl⟩
  | ok table => exact ⟨rfl, rfl, rfl⟩

theorem History.tree_readStatic (c : Catalog) (h : History) (version : String) :
    (h.readStatic c version).tableTree = h.tableTree ∧
      (h.readStatic c version).staticTree = h.staticTree ∧
      (h.readStatic c version).disk = h.disk := by
  rw [History.readStatic]
  cases c.readStatic (h.staticTree version) version with
  | error fault => exact ⟨rfl, rfl, rfl⟩
  | ok document =>
    refine ⟨rfl, funext fun v => ?_, rfl⟩
    rw [History.staticTree]
    by_cases hv : v = version
    · simp [hv]
    · simp [hv, History.staticTree]

/-- To build the document of a version is to ask for no other static part. -/
theorem History.staticTree?_after_build (c : Catalog) (h : History) {version v : String}
    (hv : v ≠ version) (legacyPrefixes : List String) :
    (h.after c (.build version legacyPrefixes)).staticTree? v = h.staticTree? v := by
  have htable (h : History) : (h.readTable c).staticTree? = h.staticTree? := by
    rw [History.readTable]
    split <;> rfl
  rw [History.after]
  split
  · next hread =>
    rw [htable, History.readStatic, hread]
    exact if_neg hv
  · rfl

/-- Asking leaves the trees of a history. -/
theorem History.tree_after (c : Catalog) (h : History) (q : Query) :
    (h.after c q).tableTree = h.tableTree ∧ (h.after c q).staticTree = h.staticTree ∧
      (h.after c q).disk = h.disk := by
  cases q with
  | rangeFor metadata =>
    rw [History.after]
    split
    · exact h.tree_readTable c
    · exact ⟨rfl, rfl, rfl⟩
  | staticDocument version => exact h.tree_readStatic c version
  | build version legacyPrefixes =>
    rw [History.after]
    split
    · obtain ⟨htable, hstatic, hdisk⟩ := h.tree_readStatic c version
      obtain ⟨htable', hstatic', hdisk'⟩ := (h.readStatic c version).tree_readTable c
      exact ⟨htable'.trans htable, hstatic'.trans hstatic, hdisk'.trans hdisk⟩
    · exact ⟨rfl, rfl, rfl⟩
  | _ => exact h.tree_readTable c

/-- Asking changes nothing of what is read. -/
theorem sameAnswers_after (c : Catalog) (h : History) (q : Query) :
    SameAnswers c h (h.after c q) := by
  obtain ⟨htable, hstatic, hdisk⟩ := h.tree_after c q
  exact ⟨by rw [htable], fun _ => by rw [hstatic], by rw [hdisk], fun _ => by rw [hdisk]⟩

/-- Another tree of now that is read alike changes nothing of what is read. -/
theorem sameAnswers_edit (htable : c.readTable d' = c.readTable h.disk)
    (hstatic : ∀ version, c.readStatic d' version = c.readStatic h.disk version) :
    SameAnswers c h { h with disk := d' } := by
  refine ⟨?_, fun version => ?_, htable, hstatic⟩
  · rw [History.tableTree, History.tableTree]
    cases h.tableTree? with
    | none => exact htable
    | some d => rfl
  · rw [History.staticTree, History.staticTree]
    cases h.staticTree? version with
    | none => exact hstatic version
    | some d => rfl

/-! ## Steps that change no files -/

/-- The step changes no files. -/
def Session.Step.IsReading : Session.Step → Prop
  | .edit _ => False
  | .clear => True
  | .ask _ => True

theorem sameAnswers_step (hsame : SameAnswers c { disk := d } h) {step : Session.Step}
    (hstep : step.IsReading) :
    SameAnswers c { disk := d } (h.step c step) ∧ (h.step c step).disk = h.disk := by
  cases step with
  | edit change => exact hstep.elim
  | clear => exact ⟨hsame.clear, rfl⟩
  | ask q => exact ⟨hsame.trans (sameAnswers_after c h q), (h.tree_after c q).2.2⟩

/-- Whatever is asked, and however often the catalog forgets, a tree that does not change is read
alike. -/
theorem sameAnswers_steps (hsame : SameAnswers c { disk := d } h) {steps : List Session.Step}
    (hsteps : ∀ step ∈ steps, step.IsReading) :
    SameAnswers c { disk := d } (steps.foldl (History.step c) h) ∧
      (steps.foldl (History.step c) h).disk = h.disk := by
  induction steps generalizing h with
  | nil => exact ⟨hsame, rfl⟩
  | cons step steps ih =>
    rw [List.forall_mem_cons] at hsteps
    obtain ⟨hstep, hdisk⟩ := sameAnswers_step hsame hsteps.1
    obtain ⟨hrest, hdisk'⟩ := ih hstep hsteps.2
    exact ⟨hrest, hdisk'.trans hdisk⟩

/-! ## Answers -/

/-- Sessions whose histories read the same answer questions about the table alike. -/
theorem answer_eq_of_table (hsame : SameAnswers c h h') (hr : Remembers c h s)
    (hr' : Remembers c h' s') (q : Query) (hstatic : ∀ version, q ≠ .staticDocument version)
    (hbuild : ∀ version legacyPrefixes, q ≠ .build version legacyPrefixes) :
    (exec q.ask s').1 = (exec q.ask s).1 := by
  obtain ⟨answer, hanswer⟩ := exists_answer_of_table c q hstatic hbuild
  rw [(hanswer h s hr).1, (hanswer h' s' hr').1, hsame.table]

/-- What is built is the same document. -/
theorem SameAnswers.builtFrom (hsame : SameAnswers c h h') (version : String)
    (legacyPrefixes : List String) :
    c.builtFrom (h'.staticTree version) h'.tableTree version legacyPrefixes =
      c.builtFrom (h.staticTree version) h.tableTree version legacyPrefixes := by
  rw [Catalog.builtFrom, Catalog.builtFrom, hsame.static, hsame.table]

/-- Sessions whose histories read the same answer alike. -/
theorem answer_eq (hsame : SameAnswers c h h') (hr : Remembers c h s) (hr' : Remembers c h' s')
    (q : Query) : (exec q.ask s').1 = (exec q.ask s).1 := by
  cases q with
  | staticDocument version =>
    have hgives := (hr.gives_staticDocument version).map Answer.fields
    have hgives' := (hr'.gives_staticDocument version).map Answer.fields
    rw [Query.ask, hgives.1, hgives'.1, hsame.static]
  | build version legacyPrefixes =>
    have hgives := (hr.gives_build version legacyPrefixes).map Answer.fields
    have hgives' := (hr'.gives_build version legacyPrefixes).map Answer.fields
    rw [Query.ask, hgives.1, hgives'.1, hsame.builtFrom]
  | _ => exact answer_eq_of_table hsame hr hr' _ (by rintro v ⟨⟩) (by rintro v l ⟨⟩)

end ApiTree
