import ApiTree.Document.Build
import ApiTree.Proofs.Catalog.Step
import ApiTree.Proofs.Entries

/-!
# Histories of a catalog

A catalog remembers what it has read, and the tree changes while it does. `History` follows a
session without looking at what its catalog remembers: it keeps the tree of now, the tree from which
the table of operations was first read since the catalog was last told to forget, and for each
version the tree from which its static part was first made. A reading that fails leaves no trace in
it.

`Remembers` says that a catalog remembers exactly what was read from the trees of a history. The
table, the versions and the static parts are then those of these trees.
-/

set_option autoImplicit false

namespace ApiTree

open Run

/-! ## Questions and steps -/

/-- A question to a catalog. -/
inductive Query where
  | versions
  | latest
  | range (after upTo : Option String)
  | rangeFor (metadata : Value)
  | operations
  /-- An operation may be asked for by a descriptor or by its key. -/
  | resolve (operation : String ⊕ OperationKey) (version : Option String)
  | staticDocument (version : String)
  | build (version : String) (legacyPrefixes : List String)

/-- The answer to a question. -/
inductive Answer where
  | texts (texts : List String)
  | text (text : String)
  | keys (keys : List OperationKey)
  | fields (fields : Fields)

/-- A question as a step of a session. -/
def Query.ask : Query → Run Answer
  | .versions => Answer.texts <$> Run.versions
  | .latest => Answer.text <$> Run.latest
  | .range after upTo => Answer.texts <$> Run.range after upTo
  | .rangeFor metadata => Answer.texts <$> Run.rangeFor metadata
  | .operations => Answer.keys <$> Run.operations
  | .resolve operation version => do
    let base := (← Run.catalog).base
    Answer.fields <$> Run.resolve (operation.elim (OperationKey.parse · base) id) version
  | .staticDocument version => Answer.fields <$> Run.staticDocument version
  | .build version legacyPrefixes => Answer.fields <$> Document.build version legacyPrefixes

/-- A step of a session: files are written or deleted, the catalog forgets, or it is asked. -/
inductive Session.Step where
  | edit (change : Disk → Disk)
  | clear
  | ask (query : Query)

/-- The session after a step, whether or not the step fails. -/
def Session.perform (s : Session) : Session.Step → Session
  | .edit change => { s with disk := change s.disk }
  | .clear => (exec Run.clear s).2
  | .ask query => (exec query.ask s).2

/-! ## Histories -/

namespace Catalog

variable (c : Catalog)

/-- The table of operations of a tree. -/
def readTable (d : Disk) : Except Fault OperationTable :=
  (OperationTable.build d c.root c.base).collect.1

/-- The versions of a tree. -/
def readVersions (d : Disk) : Except Fault (List String) :=
  (c.readTable d).map OperationTable.versions

/-- The static part of a version of a tree. -/
def readStatic (d : Disk) (version : String) : Except Fault Fields :=
  (StaticPart.document d c.root c.base c.staticExclusions version).collect.1

/-- The answer of a catalog that remembers nothing, on the given tree. -/
def freshAnswer (d : Disk) (query : Query) : Except Fault Answer :=
  (exec query.ask { disk := d, catalog := c.forget }).1

/-- The document of a version with its static part from one tree and its operations from another. -/
def builtFrom (static operations : Disk) (version : String) (legacyPrefixes : List String) :
    Except Fault Fields := do
  let document ← c.readStatic static version
  let table ← c.readTable operations
  let components := Fields.getD "components" document
  let paths ← (Document.paths table c.base components version legacyPrefixes).collect.1
  return Value.mergeEntries document [("paths", .map paths)]

/-- The latest of the given versions, of which the last is the draft. -/
def latestOf (versions : List String) : Except Fault String :=
  match versions.dropLast.getLast? with
  | some v => .ok v
  | none => .error (.noVersions c.root.render)

/-- Versions for the given metadata are looked up in the table, and are not just the draft. -/
def looksUpVersions (metadata : Value) : Bool :=
  match metadata.orElse (.map []) with
  | .map fields => !((Fields.getD "draft" fields).isTruthy || c.draftOnly)
  | _ => false

end Catalog

/-- The trees that the answers of a session go back to. -/
structure History where
  /-- The tree of now. -/
  disk : Disk
  /-- The tree of the first successful reading of the table since the catalog last forgot. -/
  tableTree? : Option Disk := none
  /-- The tree of the first successful making of the static part of each version since then. -/
  staticTree? : String → Option Disk := fun _ => none

namespace History

variable (c : Catalog) (h : History)

/-- The tree that the table is about when it is read now. -/
def tableTree : Disk := h.tableTree?.getD h.disk

/-- The tree that the static part of a version is about when it is made now. -/
def staticTree (version : String) : Disk := (h.staticTree? version).getD h.disk

/-- The history after the table was asked for. -/
def readTable : History :=
  match c.readTable h.tableTree with
  | .ok _ => { h with tableTree? := some h.tableTree }
  | .error _ => h

/-- The history after the static part of a version was asked for. -/
def readStatic (version : String) : History :=
  match c.readStatic (h.staticTree version) version with
  | .ok _ =>
    { h with
      staticTree? := fun v => if v = version then some (h.staticTree v) else h.staticTree? v }
  | .error _ => h

/-- The history after a question. A document needs its static part before the operations. -/
def after : Query → History
  | .rangeFor metadata => if c.looksUpVersions metadata then h.readTable c else h
  | .staticDocument version => h.readStatic c version
  | .build version _ =>
    match c.readStatic (h.staticTree version) version with
    | .ok _ => (h.readStatic c version).readTable c
    | .error _ => h
  | _ => h.readTable c

/-- The history after a step. -/
def step : Session.Step → History
  | .edit change => { h with disk := change h.disk }
  | .clear => { disk := h.disk }
  | .ask query => h.after c query

/-- The answer that a history promises to a question. -/
def answer : Query → Except Fault Answer
  | .staticDocument version => c.freshAnswer (h.staticTree version) (.staticDocument version)
  | .build version legacyPrefixes =>
    .fields <$> c.builtFrom (h.staticTree version) h.tableTree version legacyPrefixes
  | query => c.freshAnswer h.tableTree query

end History

/-! ## What a catalog remembers -/

/-- The session of a catalog remembers what was read from the trees of its history, and no more. -/
structure Remembers (c : Catalog) (h : History) (s : Session) : Prop where
  disk : s.disk = h.disk
  settings : s.catalog.forget = c
  table : ∀ t, s.catalog.table? = some t ↔
    ∃ d, h.tableTree? = some d ∧ c.readTable d = .ok t
  readable : ∀ d, h.tableTree? = some d → ∃ t, c.readTable d = .ok t
  versions : ∀ vs, s.catalog.versions? = some vs →
    ∃ t, s.catalog.table? = some t ∧ vs = t.versions
  static : ∀ version document, Entries.get? version s.catalog.statics = some document ↔
    ∃ d, h.staticTree? version = some d ∧ c.readStatic d version = .ok document
  makeable : ∀ version d, h.staticTree? version = some d →
    ∃ document, c.readStatic d version = .ok document

/-- A new catalog remembers nothing. -/
theorem remembers_start (c : Catalog) (d : Disk) (hc : c.forget = c) :
    Remembers c { disk := d } { disk := d, catalog := c } := by
  have htable : c.table? = none := by rw [← hc]; rfl
  have hversions : c.versions? = none := by rw [← hc]; rfl
  have hstatics : c.statics = [] := by rw [← hc]; rfl
  refine ⟨rfl, hc, ?_, ?_, ?_, ?_, ?_⟩
  · simp [htable]
  · simp
  · simp [hversions]
  · simp [hstatics, Entries.get?]
  · simp

section Steps

variable {c : Catalog} {h : History} {s : Session}

theorem Remembers.root_eq (hr : Remembers c h s) : s.catalog.root = c.root := by
  rw [← hr.settings]; rfl

theorem Remembers.base_eq (hr : Remembers c h s) : s.catalog.base = c.base := by
  rw [← hr.settings]; rfl

theorem Remembers.draftOnly_eq (hr : Remembers c h s) : s.catalog.draftOnly = c.draftOnly := by
  rw [← hr.settings]; rfl

theorem Remembers.staticExclusions_eq (hr : Remembers c h s) :
    s.catalog.staticExclusions = c.staticExclusions := by
  rw [← hr.settings]; rfl

theorem Remembers.with_events (hr : Remembers c h s) (events : List Event) :
    Remembers c h { s with events } :=
  ⟨hr.disk, hr.settings, hr.table, hr.readable, hr.versions, hr.static, hr.makeable⟩

theorem Remembers.tableTree?_eq_none (hr : Remembers c h s) (hs : s.catalog.table? = none) :
    h.tableTree? = none := by
  cases ht : h.tableTree? with
  | none => rfl
  | some d =>
    obtain ⟨t, hread⟩ := hr.readable d ht
    have := (hr.table t).mpr ⟨d, ht, hread⟩
    rw [hs] at this
    cases this

theorem Remembers.staticTree?_eq_none (hr : Remembers c h s) {version : String}
    (hs : Entries.get? version s.catalog.statics = none) : h.staticTree? version = none := by
  cases ht : h.staticTree? version with
  | none => rfl
  | some d =>
    obtain ⟨document, hread⟩ := hr.makeable version d ht
    have := (hr.static version document).mpr ⟨d, ht, hread⟩
    rw [hs] at this
    cases this

/-- The step `m` answers `r` in the session `s`, whose catalog then remembers the history `h`. -/
def Gives {α : Type} (c : Catalog) (h : History) (m : Run α) (s : Session) (r : Except Fault α) :
    Prop :=
  (exec m s).1 = r ∧ Remembers c h (exec m s).2

theorem Gives.bind {α β : Type} {m : Run α} {r : Except Fault α} {f : α → Run β}
    {g : α → Except Fault β} (hm : Gives c h m s r)
    (hf : ∀ a t, Remembers c h t → Gives c h (f a) t (g a)) : Gives c h (m >>= f) s (r >>= g) := by
  obtain ⟨rfl, hr⟩ := hm
  rw [Gives, exec_bind]
  rcases hx : exec m s with ⟨f | a, t⟩
  · rw [hx] at hr
    exact ⟨rfl, hr⟩
  · rw [hx] at hr
    exact hf a t hr

theorem Gives.map {α β : Type} {m : Run α} {r : Except Fault α} (hm : Gives c h m s r) (f : α → β) :
    Gives c h (f <$> m) s (r.map f) := by
  obtain ⟨rfl, hr⟩ := hm
  rw [Gives, exec_map]
  exact ⟨rfl, hr⟩

theorem Remembers.gives_pure {α : Type} (hr : Remembers c h s) (a : α) :
    Gives c h (pure a) s (.ok a) := ⟨rfl, hr⟩

theorem Remembers.gives_liftM {α : Type} (hr : Remembers c h s) (r : Except Fault α) :
    Gives c h (liftM r) s r := by
  rw [Gives, exec_liftM]
  exact ⟨rfl, hr⟩

/-! ## The table and the versions -/

/-- A table that is remembered is that of the tree of the history, which does not change. -/
theorem Remembers.readTable_of_some (hr : Remembers c h s) {t : OperationTable}
    (hs : s.catalog.table? = some t) : c.readTable h.tableTree = .ok t ∧ h.readTable c = h := by
  obtain ⟨d, hd, hread⟩ := (hr.table t).mp hs
  have htree : h.tableTree = d := by rw [History.tableTree, hd]; rfl
  refine ⟨htree ▸ hread, ?_⟩
  rw [History.readTable, htree, hread]
  simp only
  rw [← hd]

/-- The answer to a request for the table is that of the tree of the history, which is kept. -/
theorem Remembers.gives_table (hr : Remembers c h s) :
    Gives c (h.readTable c) Run.table s (c.readTable h.tableTree) := by
  cases hs : s.catalog.table? with
  | some t =>
    obtain ⟨hread, hsame⟩ := hr.readTable_of_some hs
    rw [Gives, exec_table_of_some hs, hsame, hread]
    exact ⟨rfl, hr⟩
  | none =>
    have htree : h.tableTree = s.disk := by
      rw [History.tableTree, hr.tableTree?_eq_none hs, hr.disk]; rfl
    obtain ⟨events, hexec⟩ := exec_table_of_none hs
    rw [hr.root_eq, hr.base_eq] at hexec
    change exec Run.table s = match c.readTable s.disk with
      | .ok t => _
      | .error f => _ at hexec
    rw [Gives, History.readTable, htree]
    cases hread : c.readTable s.disk with
    | error f =>
      rw [hread] at hexec
      rw [hexec]
      exact ⟨rfl, hr.with_events events⟩
    | ok t =>
      rw [hread] at hexec
      rw [hexec]
      -- the table is read for the first time: the tree of now becomes its tree
      refine ⟨rfl, ⟨hr.disk, hr.settings, ?_, ?_, ?_, hr.static, hr.makeable⟩⟩
      · intro u
        simp [hread]
      · rintro d hd
        obtain rfl := Option.some.inj hd
        exact ⟨t, hread⟩
      · intro vs hvs
        obtain ⟨u, hu, -⟩ := hr.versions vs hvs
        rw [hs] at hu
        cases hu

/-- After a successful request for the table it is remembered. -/
theorem Remembers.table_eq_some (hr : Remembers c (h.readTable c) s) {t : OperationTable}
    (hread : c.readTable h.tableTree = .ok t) : s.catalog.table? = some t :=
  (hr.table t).mpr ⟨h.tableTree, by rw [History.readTable, hread], hread⟩

theorem Remembers.gives_versions (hr : Remembers c h s) :
    Gives c (h.readTable c) Run.versions s (c.readVersions h.tableTree) := by
  cases hs : s.catalog.versions? with
  | some vs =>
    -- versions are only remembered beside their table, so the table need not be asked for
    obtain ⟨t, ht, rfl⟩ := hr.versions vs hs
    obtain ⟨hread, hsame⟩ := hr.readTable_of_some ht
    rw [Gives, Catalog.readVersions, hread, hsame]
    simp only [Run.versions, exec_bind, exec_catalog, hs, exec_pure]
    exact ⟨rfl, hr⟩
  | none =>
    obtain ⟨hanswer, hkept⟩ := hr.gives_table
    rw [Gives, Catalog.readVersions, ← hanswer]
    simp only [Run.versions, exec_bind, exec_catalog, hs]
    rcases hx : exec Run.table s with ⟨f | t, u⟩
    · rw [hx] at hkept
      exact ⟨rfl, hkept⟩
    · rw [hx] at hanswer hkept
      have htable := hkept.table_eq_some hanswer.symm
      simp only [exec_modifyCatalog, exec_pure]
      refine ⟨rfl, ⟨hkept.disk, hkept.settings, hkept.table, hkept.readable, ?_, hkept.static,
        hkept.makeable⟩⟩
      rintro vs hvs
      exact ⟨t, htable, (Option.some.inj hvs).symm⟩

/-! ## Static parts -/

theorem Remembers.gives_staticDocument (hr : Remembers c h s) (version : String) :
    Gives c (h.readStatic c version) (Run.staticDocument version) s
      (c.readStatic (h.staticTree version) version) := by
  cases hs : Entries.get? version s.catalog.statics with
  | some document =>
    obtain ⟨d, hd, hread⟩ := (hr.static version document).mp hs
    have htree : h.staticTree version = d := by rw [History.staticTree, hd]; rfl
    have hsame : h.readStatic c version = h := by
      rw [History.readStatic, htree, hread]
      -- the tree that is noted again is the one that was noted before
      have hsame : (fun v => if v = version then some (h.staticTree v) else h.staticTree? v) =
          h.staticTree? := by
        funext v
        by_cases hv : v = version
        · rw [if_pos hv, hv, htree, hd]
        · rw [if_neg hv]
      simp only [hsame]
    rw [Gives, exec_staticDocument_of_some hs, hsame, htree, hread]
    exact ⟨rfl, hr⟩
  | none =>
    have htree : h.staticTree version = s.disk := by
      rw [History.staticTree, hr.staticTree?_eq_none hs, hr.disk]; rfl
    obtain ⟨events, hexec⟩ := exec_staticDocument_of_none hs
    rw [hr.root_eq, hr.base_eq, hr.staticExclusions_eq] at hexec
    change exec (Run.staticDocument version) s = match c.readStatic s.disk version with
      | .ok t => _
      | .error f => _ at hexec
    rw [Gives, History.readStatic, htree]
    cases hread : c.readStatic s.disk version with
    | error f =>
      rw [hread] at hexec
      rw [hexec]
      exact ⟨rfl, hr.with_events events⟩
    | ok document =>
      rw [hread] at hexec
      rw [hexec]
      refine ⟨rfl, ⟨hr.disk, hr.settings, hr.table, hr.readable, hr.versions, ?_, ?_⟩⟩
      -- the new entry is about this version; the others keep what they had
      · intro v other
        by_cases hv : v = version
        · subst hv
          simp [Entries.get?_put_self, htree, hread]
        · simp [Entries.get?_put_of_ne (Ne.symm hv), hv, hr.static v other]
      · intro v d hd
        by_cases hv : v = version
        · subst hv
          simp only [if_pos, htree] at hd
          obtain rfl := Option.some.inj hd
          exact ⟨document, hread⟩
        · simp only [if_neg hv] at hd
          exact hr.makeable v d hd

end Steps

end ApiTree
