import ApiTree.Proofs.Catalog.Snapshot
import ApiTree.Proofs.Catalog.Table
import ApiTree.Proofs.Catalog.TwoRuns

/-!
# Catalogs of trees that hold the same files

What a catalog answers depends on the names that lead from its root to files and on what these hold,
and on nothing else: not on the order in which the files are listed, nor on where the root is or what
it is called. Two catalogs that are asked the same below two such roots answer the same and tell the
same, up to the names of the roots in faults and in the log (`Catalog.same_of_sameFiles`).
-/

set_option autoImplicit false

namespace ApiTree

open Fragment

variable {d d' : Disk} {root root' : FilePath}

/-! ## Sessions that keep in step -/

/-- Lines of the log that are equal but for the names of the roots. -/
inductive SameEvent (root root' : FilePath) : Event → Event → Prop
  | log {l l' : LogLine} (h : SameLine root root' l l') : SameEvent root root' (.log l) (.log l')

/-- Catalogs that differ in their roots only. -/
structure SameCatalog (root root' : FilePath) (c c' : Catalog) : Prop where
  root_eq : c.root = root
  eq : c' = { c with root := root' }

/-- Sessions on the two disks, with catalogs that differ in their roots only, that have told the same
but for the names of the roots. -/
structure SameSession (d d' : Disk) (root root' : FilePath) (s s' : Session) : Prop where
  disk : s.disk = d
  disk' : s'.disk = d'
  catalog : SameCatalog root root' s.catalog s'.catalog
  events : List.Forall₂ (SameEvent root root') s.events s'.events

section

variable {α β : Type} {V : α → β → Prop}

theorem inStep_ofLogged {m : Logged α} {m' : Logged β}
    (hresult : SameResult root root' V m.collect.1 m'.collect.1)
    (hlines : List.Forall₂ (SameLine root root') m.collect.2 m'.collect.2) :
    InStep root root' (SameSession d d' root root') V (Run.ofLogged m) (Run.ofLogged m') := by
  intro s s' hs
  rw [Run.exec_ofLogged, Run.exec_ofLogged]
  refine ⟨hresult, hs.disk, hs.disk', hs.catalog, List.rel_append hs.events ?_⟩
  exact List.rel_map (fun _ _ h => .log h) hlines

theorem InStep.ofLogged {m : Logged α} {m' : Logged β}
    (h : InStep root root' (List.Forall₂ (SameLine root root')) V m m') :
    InStep root root' (SameSession d d' root root') V (Run.ofLogged m) (Run.ofLogged m') :=
  inStep_ofLogged h.collect.1 h.collect.2

theorem inStep_catalog :
    InStep root root' (SameSession d d' root root') (SameCatalog root root') Run.catalog
      Run.catalog := fun _ _ hs => ⟨.ok hs.catalog, hs⟩

/-- Changes of catalogs that leave the roots alone. -/
theorem inStep_modifyCatalog {f : Catalog → Catalog}
    (hf : ∀ c root, f { c with root } = { f c with root }) :
    InStep root root' (SameSession d d' root root') Eq (Run.modifyCatalog f)
      (Run.modifyCatalog f) := by
  refine inStep_modify fun s s' hs => ⟨hs.disk, hs.disk', ?_, hs.events⟩
  obtain ⟨hroot, heq⟩ := hs.catalog
  have hkept := congrArg Catalog.root (hf s.catalog s.catalog.root)
  exact ⟨hkept.trans hroot, (congrArg f heq).trans (hf s.catalog root')⟩

theorem inStep_clear :
    InStep root root' (SameSession d d' root root') Eq Run.clear Run.clear :=
  inStep_modifyCatalog fun _ _ => rfl

end

/-! ## Questions -/

section

variable (hfiles : SameFiles d d' root root') (hd : d.Sound) (hd' : d'.Sound)
  (hroot : root.IsProper) (hroot' : root'.IsProper)

include hfiles hd hd' hroot hroot'

namespace SameFiles

theorem inStep_askTable :
    InStep root root' (SameSession d d' root root') Eq Run.table Run.table := by
  rw [Run.table]
  refine inStep_get.bind fun s s' hs => ?_
  obtain ⟨rfl, rfl, ⟨rfl, heq⟩, -⟩ := hs
  rw [heq]
  -- both remember the same table, or both read theirs
  cases s.catalog.table? with
  | some table => exact inStep_pure rfl
  | none =>
    refine (hfiles.inStep_table hd hd' hroot hroot' s.catalog.base).ofLogged.bind ?_
    rintro table _ rfl
    exact InStep.bind (inStep_modifyCatalog fun _ _ => rfl) fun _ _ _ => inStep_pure rfl

theorem inStep_versions :
    InStep root root' (SameSession d d' root root') Eq Run.versions Run.versions := by
  rw [Run.versions]
  refine inStep_catalog.bind fun c c' hc => ?_
  obtain ⟨rfl, rfl⟩ := hc
  simp only
  cases c.versions? with
  | some versions => exact inStep_pure rfl
  | none =>
    refine (hfiles.inStep_askTable hd hd' hroot hroot').bind ?_
    rintro table _ rfl
    exact InStep.bind (inStep_modifyCatalog fun _ _ => rfl) fun _ _ _ => inStep_pure rfl

theorem inStep_latest :
    InStep root root' (SameSession d d' root root') Eq Run.latest Run.latest := by
  rw [Run.latest]
  refine (hfiles.inStep_versions hd hd' hroot hroot').bind ?_
  rintro versions _ rfl
  cases versions.dropLast.getLast? with
  | some version => exact inStep_pure rfl
  | none =>
    -- here the fault names the root itself
    refine inStep_catalog.bind fun c c' hc => ?_
    obtain ⟨rfl, rfl⟩ := hc
    exact inStep_liftM (.error (.noVersions (SamePath.roots c.root root')))

theorem inStep_range (after upTo : Option String) :
    InStep root root' (SameSession d d' root root') Eq (Run.range after upTo)
      (Run.range after upTo) := by
  rw [Run.range]
  refine (hfiles.inStep_versions hd hd' hroot hroot').bind ?_
  rintro versions _ rfl
  exact inStep_pure rfl

theorem inStep_rangeFor (metadata : Value) :
    InStep root root' (SameSession d d' root root') Eq (Run.rangeFor metadata)
      (Run.rangeFor metadata) := by
  have hlookup (key : String) : InStep root root' (SameSession d d' root root') Eq
      (liftM (((metadata.orElse (.map [])).lookup key).mapError Fault.failed) : Run Value)
      (liftM (((metadata.orElse (.map [])).lookup key).mapError Fault.failed)) := by
    refine inStep_liftM ?_
    cases (metadata.orElse (.map [])).lookup key with
    | ok v => exact .ok rfl
    | error f => exact .error (.same _)
  rw [Run.rangeFor]
  refine (hlookup "draft").bind ?_
  rintro isDraft _ rfl
  refine inStep_catalog.bind fun c c' hc => ?_
  obtain ⟨rfl, rfl⟩ := hc
  simp only
  cases isDraft.isTruthy || c.draftOnly with
  | true => exact inStep_pure rfl
  | false =>
    refine (hlookup "after").bind ?_
    rintro after _ rfl
    refine (hlookup "until").bind ?_
    rintro upTo _ rfl
    refine (hfiles.inStep_range hd hd' hroot hroot' _ _).bind ?_
    rintro versions _ rfl
    exact inStep_pure rfl

theorem inStep_operations :
    InStep root root' (SameSession d d' root root') Eq Run.operations Run.operations := by
  rw [Run.operations]
  refine (hfiles.inStep_askTable hd hd' hroot hroot').bind ?_
  rintro table _ rfl
  exact inStep_pure rfl

theorem inStep_resolve (key : OperationKey) (version : Option String) :
    InStep root root' (SameSession d d' root root') Eq (Run.resolve key version)
      (Run.resolve key version) := by
  rw [Run.resolve]
  refine (hfiles.inStep_askTable hd hd' hroot hroot').bind ?_
  rintro table _ rfl
  exact inStep_liftM (.refl _)

theorem inStep_staticDocument (version : String) :
    InStep root root' (SameSession d d' root root') Eq (Run.staticDocument version)
      (Run.staticDocument version) := by
  rw [Run.staticDocument]
  refine inStep_get.bind fun s s' hs => ?_
  obtain ⟨rfl, rfl, ⟨rfl, heq⟩, -⟩ := hs
  rw [heq]
  simp only
  cases Entries.get? version s.catalog.statics with
  | some document => exact inStep_pure rfl
  | none =>
    refine (hfiles.inStep_static hd hd' hroot hroot' _ _ version).ofLogged.bind ?_
    rintro document _ rfl
    exact InStep.bind (inStep_modifyCatalog fun _ _ => rfl) fun _ _ _ => inStep_pure rfl

theorem inStep_build (version : String) (legacyPrefixes : List String) :
    InStep root root' (SameSession d d' root root') Eq (Document.build version legacyPrefixes)
      (Document.build version legacyPrefixes) := by
  rw [Document.build]
  refine (hfiles.inStep_staticDocument hd hd' hroot hroot' version).bind ?_
  rintro document _ rfl
  refine (hfiles.inStep_askTable hd hd' hroot hroot').bind ?_
  rintro table _ rfl
  refine inStep_catalog.bind fun c c' hc => ?_
  obtain ⟨rfl, rfl⟩ := hc
  -- the paths are made of the table, which does not name the root
  refine (inStep_ofLogged (.refl _) (List.forall₂_same.mpr fun l _ => .refl l)).bind ?_
  rintro paths _ rfl
  exact inStep_pure rfl

/-- Each question is answered alike. -/
theorem inStep_ask (query : Query) :
    InStep root root' (SameSession d d' root root') Eq query.ask query.ask := by
  have hmap {α : Type} (f : α → Answer) {m : Run α}
      (h : InStep root root' (SameSession d d' root root') Eq m m) :
      InStep root root' (SameSession d d' root root') Eq (f <$> m) (f <$> m) :=
    h.map fun _ _ heq => congrArg f heq
  cases query with
  | versions => exact hmap _ (hfiles.inStep_versions hd hd' hroot hroot')
  | latest => exact hmap _ (hfiles.inStep_latest hd hd' hroot hroot')
  | range after upTo => exact hmap _ (hfiles.inStep_range hd hd' hroot hroot' after upTo)
  | rangeFor metadata => exact hmap _ (hfiles.inStep_rangeFor hd hd' hroot hroot' metadata)
  | operations => exact hmap _ (hfiles.inStep_operations hd hd' hroot hroot')
  | resolve operation version =>
    refine inStep_catalog.bind fun c c' hc => ?_
    obtain ⟨rfl, rfl⟩ := hc
    exact hmap _ (hfiles.inStep_resolve hd hd' hroot hroot' _ version)
  | staticDocument version =>
    exact hmap _ (hfiles.inStep_staticDocument hd hd' hroot hroot' version)
  | build version legacyPrefixes =>
    exact hmap _ (hfiles.inStep_build hd hd' hroot hroot' version legacyPrefixes)

end SameFiles

/-! ## Steps -/

/-- The step does not change files. -/
def Session.Step.Reads : Session.Step → Prop
  | .edit _ => False
  | _ => True

/-- A step that both sessions do keeps them alike. -/
theorem SameSession.perform {s s' : Session} (h : SameSession d d' root root' s s')
    {step : Session.Step} (hstep : step.Reads) :
    SameSession d d' root root' (s.perform step) (s'.perform step) := by
  cases step with
  | edit change => exact hstep.elim
  | clear => exact (inStep_clear s s' h).2
  | ask query => exact (hfiles.inStep_ask hd hd' hroot hroot' query s s' h).2

/-- Sessions that start alike and do the same stay alike. -/
theorem SameSession.run {s s' : Session} (h : SameSession d d' root root' s s')
    {steps : List Session.Step} (hsteps : ∀ step ∈ steps, step.Reads) :
    SameSession d d' root root' (steps.foldl Session.perform s)
      (steps.foldl Session.perform s') := by
  induction steps generalizing s s' with
  | nil => exact h
  | cons step steps ih =>
    obtain ⟨hstep, hsteps⟩ := List.forall_mem_cons.mp hsteps
    exact ih (h.perform hfiles hd hd' hroot hroot' hstep) hsteps

end

/-- Only the files below the root count. Let the same names lead to the same files below two roots,
on two disks that list them in any order. Then what a file is depends on its names alone, both trees
list the same names in the same order, and compiling all their files gives the same document and the
same log but for the names of the roots. Two catalogs of the trees that go through the same steps tell
the same, and to any question then give the same answer or the same fault, up to these names again. -/
theorem Catalog.same_of_sameFiles {rootText rootText' base : String} {draftOnly : Bool}
    {exclusions : Option (List String)} {c c' : Catalog}
    (hc : c = Catalog.make (FilePath.ofText rootText) base draftOnly exclusions)
    (hc' : c' = Catalog.make (FilePath.ofText rootText') base draftOnly exclusions)
    (hd : d.Sound) (hd' : d'.Sound) (hfiles : SameFiles d d' c.root c'.root) :
    (∀ names base, Place.ofPath c.root (c.root.under names) base =
      Place.ofPath c'.root (c'.root.under names) base) ∧
    (∃ listed : List (List String), discover d c.root = listed.map c.root.under ∧
      discover d' c'.root = listed.map c'.root.under) ∧
    (∀ base exclusions,
      let compiled := (Document.compile d c.root base exclusions
        ((discover d c.root).map (·.render))).collect
      let compiled' := (Document.compile d' c'.root base exclusions
        ((discover d' c'.root).map (·.render))).collect
      SameResult c.root c'.root Eq compiled.1 compiled'.1 ∧
        List.Forall₂ (SameLine c.root c'.root) compiled.2 compiled'.2) ∧
    ∀ steps : List Session.Step, (∀ step ∈ steps, step.Reads) →
      let s := steps.foldl Session.perform { disk := d, catalog := c }
      let s' := steps.foldl Session.perform { disk := d', catalog := c' }
      List.Forall₂ (SameEvent c.root c'.root) s.events s'.events ∧
        ∀ query : Query,
          SameResult c.root c'.root Eq (exec query.ask s).1 (exec query.ask s').1 := by
  have hroot : c.root.IsProper := by
    rw [hc]
    exact FilePath.isProper_ofText rootText
  have hroot' : c'.root.IsProper := by
    rw [hc']
    exact FilePath.isProper_ofText rootText'
  refine ⟨fun names => Place.ofPath_under _ _ names, ?_, fun base exclusions => ?_, ?_⟩
  · obtain ⟨listed, -, hlisted⟩ := hfiles.exists_names hd hd' hroot hroot'
    exact ⟨listed, hlisted⟩
  · exact (inStep_compile hd hd' hroot hroot' (hfiles.discover hd hd' hroot hroot')
      exclusions).collect
  · intro steps hsteps s s'
    have hstart : SameSession d d' c.root c'.root { disk := d, catalog := c }
        { disk := d', catalog := c' } := by
      refine ⟨rfl, rfl, ⟨rfl, ?_⟩, .nil⟩
      rw [hc, hc']
      rfl
    have hs := hstart.run hfiles hd hd' hroot hroot' hsteps
    exact ⟨hs.events, fun query => (hfiles.inStep_ask hd hd' hroot hroot' query s s' hs).1⟩

/-! ## A tree that is moved -/

/-- A tree of two files. -/
def plainTree : Disk :=
  ⟨["w"],
    [(["w", "spec"], .directory),
      (["w", "spec", "a"], .directory),
      (["w", "spec", "a", "get"], .directory),
      (["w", "spec", "a", "get", "1.yml"], .file "\x7b\x7d".toUTF8),
      (["w", "spec", "index.yml"], .file "info: x\n".toUTF8)]⟩

/-- The two files below directories that are called like an index file and a method, listed the other
way round. -/
def movedTree : Disk :=
  ⟨["v"],
    [(["v", "index", "get", "index.yml"], .file "info: x\n".toUTF8),
      (["v", "index", "get", "a", "get", "1.yml"], .file "\x7b\x7d".toUTF8),
      (["v", "index", "get", "a", "get"], .directory),
      (["v", "index", "get", "a"], .directory),
      (["v", "index", "get"], .directory),
      (["v", "index"], .directory)]⟩

theorem sound_plainTree : plainTree.Sound := by
  refine ⟨by decide, by decide, ?_, ?_⟩
  · simp only [plainTree, List.forall_mem_cons]
    exact ⟨rfl, rfl, rfl, rfl, rfl, fun _ h => by cases h⟩
  · have hbelow : ∀ e ∈ plainTree.entries, ¬ e.1 <+: plainTree.home := by decide
    exact fun location content h => hbelow (location, .file content) h

theorem sound_movedTree : movedTree.Sound := by
  refine ⟨by decide, by decide, ?_, ?_⟩
  · simp only [movedTree, List.forall_mem_cons]
    exact ⟨rfl, rfl, rfl, rfl, rfl, rfl, fun _ h => by cases h⟩
  · have hbelow : ∀ e ∈ movedTree.entries, ¬ e.1 <+: movedTree.home := by decide
    exact fun location content h => hbelow (location, .file content) h

theorem sameFiles_movedTree :
    SameFiles plainTree movedTree (FilePath.ofText "spec") (FilePath.ofText "index/get") := by
  have hplain : plainTree.locate (FilePath.ofText "spec") = .ok ["w", "spec"] := rfl
  have hmoved : movedTree.locate (FilePath.ofText "index/get") = .ok ["v", "index", "get"] := rfl
  intro names content
  rw [Disk.has_iff hplain, Disk.has_iff hmoved]
  refine and_congr_right fun _ => ?_
  simp [plainTree, movedTree, or_comm]

theorem discover_plainTree : discover plainTree (FilePath.ofText "spec") =
    [["a", "get", "1.yml"], ["index.yml"]].map (FilePath.ofText "spec").under :=
  discover_eq_of_pairwise rfl rfl (by decide)

theorem operations_plainTree :
    (exec Query.operations.ask
      { disk := plainTree, catalog := Catalog.make (FilePath.ofText "spec") "/api" }).1 =
      .ok (.keys [⟨"get", "/api/a"⟩]) := by
  have hread : Fragment.read plainTree (FilePath.ofText "spec/a/get/1.yml") = .ok [] :=
    Fragment.read_of_braces rfl
  have hkept : OperationTable.files plainTree (FilePath.ofText "spec") "/api" =
      [FilePath.ofText "spec/a/get/1.yml"] := by
    rw [OperationTable.files, discover_plainTree]
    decide
  have htable : (OperationTable.build plainTree (FilePath.ofText "spec") "/api").collect.1 =
      .ok [(⟨"get", "/api/a"⟩, [("1", [])])] := by
    have hfile : FilePath.ofText (FilePath.ofText "spec/a/get/1.yml").render =
        FilePath.ofText "spec/a/get/1.yml" := by decide
    have hload : Fragment.Readable plainTree [FilePath.ofText "spec/a/get/1.yml"] := by
      intro p hp
      rw [List.mem_singleton.mp hp, hfile]
      exact ⟨[], hread⟩
    rw [OperationTable.build_eq (hkept ▸ hload), hkept, List.foldl_cons, List.foldl_nil,
      OperationTable.addFile, hfile, hread]
    rfl
  have hanswer := ((remembers_start (Catalog.make (FilePath.ofText "spec") "/api") plainTree
    rfl).gives_operations.map Answer.keys).1
  have hreadTable : (Catalog.make (FilePath.ofText "spec") "/api").readTable plainTree =
      .ok [(⟨"get", "/api/a"⟩, [("1", [])])] := htable
  rw [History.tableTree, Option.getD_none, hreadTable] at hanswer
  exact hanswer.trans (congrArg (Except.ok ∘ Answer.keys) (List.mergeSort_singleton _))

/-- The moved tree lists its files in the order of the other one, in which they are what they are
there, and so it has the same operations. -/
theorem same_of_sameFiles_movedTree :
    let root := FilePath.ofText "index/get"
    plainTree.Sound ∧ movedTree.Sound ∧ SameFiles plainTree movedTree (FilePath.ofText "spec") root ∧
      (Place.ofPath root (root.under ["a", "get", "1.yml"]) "/api").operation =
        some ⟨"get", "/api/a"⟩ ∧
      discover movedTree root = [root.under ["a", "get", "1.yml"], root.under ["index.yml"]] ∧
      (exec Query.operations.ask { disk := movedTree, catalog := Catalog.make root "/api" }).1 =
        .ok (.keys [⟨"get", "/api/a"⟩]) := by
  intro root
  have hc : Catalog.make (FilePath.ofText "spec") "/api" =
      Catalog.make (FilePath.ofText "spec") "/api" := rfl
  have hc' : Catalog.make root "/api" = Catalog.make (FilePath.ofText "index/get") "/api" := rfl
  obtain ⟨hplace, ⟨listed, hplain, hmoved⟩, -, hanswers⟩ :=
    Catalog.same_of_sameFiles hc hc' sound_plainTree sound_movedTree sameFiles_movedTree
  have hinjective : Function.Injective (FilePath.ofText "spec").under :=
    fun _ _ h => FilePath.under_inj.mp h
  refine ⟨sound_plainTree, sound_movedTree, sameFiles_movedTree, ?_, ?_, ?_⟩
  · exact (congrArg Place.operation (hplace ["a", "get", "1.yml"] "/api")).symm.trans (by decide)
  · rw [← hinjective.list_map (discover_plainTree.symm.trans hplain)] at hmoved
    exact hmoved
  · have hsame := (hanswers [] (fun _ h => nomatch h)).2 .operations
    rw [List.foldl_nil, List.foldl_nil, operations_plainTree] at hsame
    revert hsame
    generalize (exec Query.operations.ask _).1 = answer
    rintro (rfl | _)
    rfl

end ApiTree
