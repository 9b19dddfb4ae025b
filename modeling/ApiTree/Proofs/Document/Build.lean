import ApiTree.Document.Build
import ApiTree.Proofs.Catalog.Snapshot
import ApiTree.Proofs.Catalog.Table
import ApiTree.Proofs.Document.Static
import ApiTree.Proofs.Fragment.Transform
import ApiTree.Proofs.Operation.View

/-!
# Which operations a document describes

Every operation of a table is either described in the document of a version or told to be left out.
The writer writes the key of the operation as its slug and reads it again, so that the operation is
treated by what the table has under the key that is read. That is its own key for the legible slugs.
-/

set_option autoImplicit false

namespace ApiTree.Document

open Run

/-! ## Paths of operations -/

/-- The methods that are written at a path. -/
def methodsAt (paths : Fields) (path : String) : Fields :=
  match Fields.get? path paths with
  | some (.map methods) => methods
  | _ => []

theorem addOperation_eq (paths : Fields) (k : OperationKey) (operation : Fields) :
    addOperation paths k operation = Fields.put k.path
      (.map (Fields.put k.method (.map operation) (methodsAt paths k.path))) paths := rfl

theorem get?_addOperation (paths : Fields) (k : OperationKey) (operation : Fields)
    (path : String) :
    Fields.get? path (addOperation paths k operation) =
      if k.path = path then
        some (.map (Fields.put k.method (.map operation) (methodsAt paths k.path)))
      else Fields.get? path paths := by
  rw [addOperation_eq, Fields.get?, Fields.put, Entries.get?_put]
  simp only [Value.str.injEq]
  rfl

/-- The value at the path and the method of an operation. -/
def entryAt (paths : Fields) (k : OperationKey) : Option Value :=
  Fields.get? k.method (methodsAt paths k.path)

theorem at?_map_paths (paths : Fields) (k : OperationKey) :
    (Value.map paths).at? [k.path, k.method] = entryAt paths k := by
  rw [entryAt, methodsAt, Value.at?, Value.member?, ← Fields.get?]
  cases Fields.get? k.path paths with
  | none => rfl
  | some v =>
    rw [Option.bind_some, Value.at?]
    cases v with
    | map methods =>
      change (Fields.get? k.method methods).bind some = _
      rw [Option.bind_fun_some]
    | _ => rfl

theorem entryAt_addOperation_self (paths : Fields) (k : OperationKey) (operation : Fields) :
    entryAt (addOperation paths k operation) k = some (.map operation) := by
  rw [entryAt, methodsAt, get?_addOperation, if_pos rfl]
  exact Entries.get?_put_self _ _ _

theorem entryAt_addOperation_of_ne {k l : OperationKey} (h : k ≠ l) (paths : Fields)
    (operation : Fields) : entryAt (addOperation paths k operation) l = entryAt paths l := by
  rw [entryAt, methodsAt, get?_addOperation]
  -- two keys with one path differ in the method
  by_cases hpath : k.path = l.path
  · have hmethod : Value.str k.method ≠ .str l.method := fun hmethod => h (by
      cases k; cases l
      simp_all)
    rw [if_pos hpath, entryAt, ← hpath]
    exact Entries.get?_put_of_ne hmethod _ _
  · rw [if_neg hpath, entryAt, methodsAt]

/-- Each path, and each method of a path, is written once. -/
structure OncePaths (paths : Fields) : Prop where
  pathsOnce : (Entries.keys paths).Nodup
  methodsOnce : ∀ path, (Entries.keys (methodsAt paths path)).Nodup
  maps : ∀ path v, Fields.get? path paths = some v → v = .map (methodsAt paths path)

theorem oncePaths_nil : OncePaths [] :=
  ⟨List.nodup_nil, fun _ => List.nodup_nil, fun _ _ h => by cases h⟩

theorem OncePaths.addOperation {paths : Fields} (h : OncePaths paths) (k : OperationKey)
    (operation : Fields) : OncePaths (addOperation paths k operation) := by
  refine ⟨Entries.nodup_keys_put _ _ h.pathsOnce, fun path => ?_, fun path v hv => ?_⟩
  · rw [methodsAt, get?_addOperation]
    by_cases hpath : k.path = path
    · rw [if_pos hpath]
      exact Entries.nodup_keys_put _ _ (h.methodsOnce k.path)
    · rw [if_neg hpath]
      exact h.methodsOnce path
  · rw [methodsAt, get?_addOperation]
    rw [get?_addOperation] at hv
    by_cases hpath : k.path = path
    · rw [if_pos hpath] at hv ⊢
      exact (Option.some.inj hv).symm
    · rw [if_neg hpath] at hv ⊢
      exact h.maps path v hv

theorem OncePaths.leadsOnce {paths : Fields} (h : OncePaths paths) (path method : String) :
    (Value.map paths).LeadsOnce [path, method] := by
  refine ⟨⟨paths, rfl, h.pathsOnce⟩, fun v hv => ?_⟩
  refine ⟨⟨methodsAt paths path, ?_, ?_⟩, fun _ _ => trivial⟩
  · exact h.maps path v hv
  · exact h.methodsOnce path

/-! ## The operations one after another -/

theorem exists_report {fault : Fault} (h : ∀ f, fault ≠ .failed f) :
    ∃ report, fault.report? = some report := by
  cases fault with
  | failed f => exact absurd rfl (h f)
  | _ => exact ⟨_, rfl⟩

/-- The line of the log about an operation that is left out of the document of a version. -/
def skippedLine (k : OperationKey) (version : String) (report : FaultReport) : LogLine :=
  ⟨.error, writerName, "Skipping " ++ k.render ++ " (" ++ version ++ "): " ++ report.message⟩

section Loop

variable (table : OperationTable) (base : String) (components : Value) (version : String)
  (legacyPrefixes : List String)

/-- Of the operations that were gone through each is described, or told to be left out. -/
structure Covers (done : List OperationKey) (written : Fields) (lines : List LogLine) : Prop where
  once : OncePaths written
  described : ∀ k ∈ done, ∀ operation,
    operationEntry table base components version legacyPrefixes k = .ok operation →
      entryAt written k = some (.map operation)
  told : ∀ k ∈ done, ∀ fault,
    operationEntry table base components version legacyPrefixes k = .error fault →
      ∃ report, fault.report? = some report ∧ skippedLine k version report ∈ lines
  only : ∀ k fault,
    operationEntry table base components version legacyPrefixes k = .error fault →
      entryAt written k = none

variable {table base components version legacyPrefixes} {done : List OperationKey}
  {written : Fields} {lines : List LogLine}

theorem mem_of_mem_concat {k l : OperationKey} (hl : l ∈ done ++ [k]) (hne : l ≠ k) : l ∈ done :=
  (List.mem_append.mp hl).resolve_right fun hlast => hne (List.mem_singleton.mp hlast)

/-- An operation that is described is described at its own place and at no other. -/
theorem Covers.describe (h : Covers table base components version legacyPrefixes done written lines)
    {k : OperationKey} {operation : Fields}
    (hk : operationEntry table base components version legacyPrefixes k = .ok operation) :
    Covers table base components version legacyPrefixes (done ++ [k])
      (addOperation written k operation) lines := by
  refine ⟨h.once.addOperation k operation, fun l hl other hother => ?_,
    fun l hl fault hfault => ?_, fun l fault hfault => ?_⟩
  -- the operation may have been gone through before; it is then the same one
  · by_cases hkl : k = l
    · subst hkl
      rw [hk] at hother
      rw [entryAt_addOperation_self, Except.ok.inj hother]
    · have hdone : l ∈ done := mem_of_mem_concat hl (Ne.symm hkl)
      rw [entryAt_addOperation_of_ne hkl]
      exact h.described l hdone other hother
  · have hdone : l ∈ done := mem_of_mem_concat hl fun hlk => by
      rw [hlk, hk] at hfault
      cases hfault
    exact h.told l hdone fault hfault
  · have hkl : k ≠ l := fun hkl => by
      rw [← hkl, hk] at hfault
      cases hfault
    rw [entryAt_addOperation_of_ne hkl]
    exact h.only l fault hfault

/-- An operation that is told to be left out changes nothing that is described. -/
theorem Covers.skip (h : Covers table base components version legacyPrefixes done written lines)
    {k : OperationKey} {fault : Fault} {report : FaultReport}
    (hk : operationEntry table base components version legacyPrefixes k = .error fault)
    (hreport : fault.report? = some report) :
    Covers table base components version legacyPrefixes (done ++ [k]) written
      (lines ++ [skippedLine k version report]) := by
  refine ⟨h.once, fun l hl operation hoperation => ?_, fun l hl other hother => ?_, h.only⟩
  · have hdone : l ∈ done := mem_of_mem_concat hl fun hlk => by
      rw [hlk, hk] at hoperation
      cases hoperation
    exact h.described l hdone operation hoperation
  · rcases List.mem_append.mp hl with hdone | hlast
    · obtain ⟨r, hr, hmem⟩ := h.told l hdone other hother
      exact ⟨r, hr, List.mem_append_left _ hmem⟩
    · obtain rfl := List.mem_singleton.mp hlast
      rw [hk] at hother
      rw [← Except.error.inj hother]
      exact ⟨report, hreport, List.mem_append_right _ (List.mem_singleton.mpr rfl)⟩

/-- The next operation is gone through, if it does not fail without a message. -/
theorem Covers.exec_next
    (h : Covers table base components version legacyPrefixes done written lines) (k : OperationKey)
    (hfails : ∀ f, operationEntry table base components version legacyPrefixes k ≠
      .error (.failed f)) :
    ∃ written' lines', exec (do
        match operationEntry table base components version legacyPrefixes k with
        | .ok operation => return addOperation written k operation
        | .error fault =>
          match fault.report? with
          | some report =>
            Logged.log .error writerName
              ("Skipping " ++ k.render ++ " (" ++ version ++ "): " ++ report.message)
            return written
          | none => throw fault) lines = (.ok written', lines') ∧
      Covers table base components version legacyPrefixes (done ++ [k]) written' lines' := by
  cases hk : operationEntry table base components version legacyPrefixes k with
  | ok operation => exact ⟨_, lines, rfl, h.describe hk⟩
  | error fault =>
    obtain ⟨report, hreport⟩ := exists_report fun f (hf : fault = .failed f) =>
      hfails f (hk.trans (congrArg Except.error hf))
    refine ⟨written, _, ?_, h.skip hk hreport⟩
    simp only [hreport]
    rfl

/-- Where no operation fails without a message, all of them are gone through. -/
theorem exists_paths (hfails : ∀ k ∈ table.operations, ∀ f,
      operationEntry table base components version legacyPrefixes k ≠ .error (.failed f)) :
    ∃ written lines,
      (paths table base components version legacyPrefixes).collect = (.ok written, lines) ∧
      Covers table base components version legacyPrefixes table.operations written lines := by
  -- the invariant: what was gone through and what remains are the operations of the table
  have hstart : Covers table base components version legacyPrefixes [] [] [] :=
    ⟨oncePaths_nil, fun k hk => absurd hk List.not_mem_nil, fun k hk => absurd hk List.not_mem_nil,
      fun _ _ _ => rfl⟩
  obtain ⟨written, lines, hexec, done, hdone, hcovers⟩ :=
    exec_foldlM (P := fun written lines rest => ∃ done, done ++ rest = table.operations ∧
        Covers table base components version legacyPrefixes done written lines)
      (fun written lines k rest ⟨done, hdone, hcovers⟩ => by
        have hk : k ∈ table.operations := by
          rw [← hdone]
          exact List.mem_append_right _ List.mem_cons_self
        obtain ⟨written', lines', hexec, hnext⟩ := hcovers.exec_next k (hfails k hk)
        exact ⟨written', lines', hexec, done ++ [k], by rw [← hdone]; simp, hnext⟩)
      (s := []) ⟨[], List.nil_append _, hstart⟩
  rw [List.append_nil] at hdone
  exact ⟨written, lines, hexec, hdone ▸ hcovers⟩

end Loop

/-! ## Whole documents -/

/-- The place of an operation in a document. -/
def placeOf (k : OperationKey) : List String := ["paths", k.path, k.method]

/-- The log tells that the operation is left out of the document of a version, and why. The document
has at its place what the static part has. -/
def Skips (static document : Fields) (events : List Event) (k : OperationKey) (version : String)
    (fault : Fault) : Prop :=
  (∃ report, fault.report? = some report ∧ .log (skippedLine k version report) ∈ events) ∧
    (Value.map document).at? (placeOf k) = (Value.map static).at? (placeOf k)

/-- The document has at the place of an operation what the view of it says, on top of what the
static part has. -/
def Describes (static document : Fields) (k : OperationKey) (view : OperationView) : Prop :=
  ∃ operation, view.rendered (Fields.getD "components" static) = .ok operation ∧
    (Value.map document).at? (placeOf k) =
      some (Value.merge ((Value.map static).at? (placeOf k)) (.map operation))

/-- The operation `k` is treated by what the table has under the key `l`: it is described, or left
out because nothing is found there or because the identifier that it needs is missing. -/
def Treats (table : OperationTable) (static document : Fields) (events : List Event)
    (version : String) (legacyPrefixes : List String) (k l : OperationKey) : Prop :=
  (∀ fault, table.resolve l (some version) = .error fault →
    Skips static document events k version fault) ∧
  ∀ content, table.resolve l (some version) = .ok content →
    let view := OperationView.ofFragment content l (some version) legacyPrefixes
    (view.LacksIdentifier → Skips static document events k version
      (.missingOperationId view.operation view.apiVersion)) ∧
    (¬ view.LacksIdentifier → Describes static document k view)

/-- What a document has at the place of an operation. -/
theorem at?_built {static written : Fields} (honce : OncePaths written) (k : OperationKey) :
    (Value.map (Value.mergeEntries static [("paths", .map written)])).at? (placeOf k) =
      match entryAt written k with
      | some v => some (Value.merge ((Value.map static).at? (placeOf k)) v)
      | none => (Value.map static).at? (placeOf k) := by
  have hover : (Value.map [("paths", .map written)]).LeadsOnce (placeOf k) := by
    refine ⟨⟨_, rfl, by simp [Entries.keys]⟩, fun v hv => ?_⟩
    obtain rfl : Value.map written = v := Option.some.inj hv
    exact honce.leadsOnce k.path k.method
  have hplace : (Value.map [("paths", .map written)]).at? (placeOf k) = entryAt written k := by
    rw [← at?_map_paths]
    rfl
  -- every name on the way is written once, so that the merge goes name by name
  have hmerge := Value.at?_merge (some (.map static)) hover
  rw [Value.merge, hplace] at hmerge
  exact hmerge

section Entry

variable {table : OperationTable} {base : String} {components : Value} {version : String}
  {legacyPrefixes : List String} {k : OperationKey}

theorem operationEntry_of_error {fault : Fault}
    (h : table.resolve (OperationKey.parse k.slug base) (some version) = .error fault) :
    operationEntry table base components version legacyPrefixes k = .error fault := by
  simp only [operationEntry, OperationTable.view, h]
  rfl

theorem operationEntry_of_ok {content : Fields} (components : Value) (legacyPrefixes : List String)
    (h : table.resolve (OperationKey.parse k.slug base) (some version) = .ok content) :
    operationEntry table base components version legacyPrefixes k =
      (OperationView.ofFragment content (OperationKey.parse k.slug base) (some version)
        legacyPrefixes).rendered components := by
  simp only [operationEntry, OperationTable.view, h]
  rfl

/-- What is left out is written nowhere, and the static part remains. -/
theorem Covers.skips {static written : Fields} {lines : List LogLine} {events : List Event}
    (h : Covers table base (Fields.getD "components" static) version legacyPrefixes
      table.operations written lines)
    (hevents : ∀ line ∈ lines, .log line ∈ events) (hk : k ∈ table.operations) {fault : Fault}
    (hfault : operationEntry table base (Fields.getD "components" static) version legacyPrefixes k =
      .error fault) :
    Skips static (Value.mergeEntries static [("paths", .map written)]) events k version fault := by
  obtain ⟨report, hreport, hline⟩ := h.told k hk fault hfault
  refine ⟨⟨report, hreport, hevents _ hline⟩, ?_⟩
  rw [at?_built h.once, h.only k fault hfault]

/-- An operation is treated by what the table has under the key that is read from its slug. -/
theorem Covers.treats {static written : Fields} {lines : List LogLine} {events : List Event}
    (h : Covers table base (Fields.getD "components" static) version legacyPrefixes
      table.operations written lines)
    (hevents : ∀ line ∈ lines, .log line ∈ events) (hk : k ∈ table.operations)
    (hfails : ∀ f, operationEntry table base (Fields.getD "components" static) version
      legacyPrefixes k ≠ .error (.failed f)) :
    Treats table static (Value.mergeEntries static [("paths", .map written)]) events version
      legacyPrefixes k (OperationKey.parse k.slug base) := by
  refine ⟨fun fault hfault => h.skips hevents hk (operationEntry_of_error hfault),
    fun content hcontent => ?_⟩
  have hentry := operationEntry_of_ok (Fields.getD "components" static) legacyPrefixes hcontent
  rw [hentry] at hfails
  refine ⟨fun hlacks => h.skips hevents hk ?_, fun hhas => ?_⟩
  · rw [hentry, OperationView.rendered_of_lacksIdentifier hlacks hfails]
  · cases hrendered : (OperationView.ofFragment content (OperationKey.parse k.slug base)
        (some version) legacyPrefixes).rendered (Fields.getD "components" static) with
    | ok operation =>
      have hwritten := h.described k hk operation (hentry.trans hrendered)
      refine ⟨operation, hrendered, ?_⟩
      rw [at?_built h.once, hwritten]
    | error fault =>
      -- with its identifier an operation can only fail without a message
      obtain ⟨f, rfl⟩ := OperationView.onlyFails_rendered hhas _ fault hrendered
      exact absurd hrendered (hfails f)

end Entry

section Build

variable {c : Catalog} {disk : Disk} {version : String} {legacyPrefixes : List String}

/-- A document is not built without its static part. -/
theorem exec_build_of_error (hc : c.forget = c) {fault : Fault}
    (hstatic : c.readStatic disk version = .error fault) :
    (exec (build version legacyPrefixes) { disk, catalog := c }).1 = .error fault := by
  obtain ⟨hanswer, -⟩ := (remembers_start c disk hc).gives_build version legacyPrefixes
  rw [hanswer, Catalog.builtFrom]
  exact congrArg (· >>= _) hstatic

/-- A document is built from its static part, the table, and the paths of the operations, of which
the log is told. -/
theorem exec_build_of_ok (hc : c.forget = c) {static written : Fields} {table : OperationTable}
    {lines : List LogLine} (hstatic : c.readStatic disk version = .ok static)
    (htable : c.readTable disk = .ok table)
    (hpaths : (paths table c.base (Fields.getD "components" static) version
      legacyPrefixes).collect = (.ok written, lines)) :
    ∃ s : Session, exec (build version legacyPrefixes) { disk, catalog := c } =
        (.ok (Value.mergeEntries static [("paths", .map written)]), s) ∧
      ∀ line ∈ lines, .log line ∈ s.events := by
  -- first the static part, from a catalog that remembers nothing
  obtain ⟨hfirst, ht⟩ := (remembers_start c disk hc).gives_staticDocument version
  rcases hx : exec (Run.staticDocument version) { disk, catalog := c } with ⟨r, t⟩
  rw [hx] at hfirst ht
  obtain rfl : r = .ok static := hfirst.trans hstatic
  -- then the table, from the same tree
  obtain ⟨hsecond, hu⟩ := ht.gives_table
  rcases hy : exec Run.table t with ⟨r, u⟩
  rw [hy] at hsecond hu
  rw [History.tableTree_readStatic] at hsecond
  obtain rfl : r = .ok table := hsecond.trans htable
  -- then the paths, which add to the log and to nothing else
  have hlog := exec_ofLogged (paths table c.base (Fields.getD "components" static) version
    legacyPrefixes) u
  rw [hpaths] at hlog
  refine ⟨{ u with events := u.events ++ lines.map .log }, ?_,
    fun line hline => List.mem_append_right u.events (List.mem_map_of_mem hline)⟩
  rw [build, exec_bind_of_ok hx, exec_bind_of_ok hy, exec_bind_of_ok (exec_catalog u), hu.base_eq,
    exec_bind_of_ok hlog, exec_pure]

/-- Where no operation fails without a message there is a document, and every operation is treated
by what the table has under the key that is read from its slug. -/
theorem exists_built (hc : c.forget = c) {static : Fields} {table : OperationTable}
    (hstatic : c.readStatic disk version = .ok static) (htable : c.readTable disk = .ok table)
    (hfails : ∀ k ∈ table.operations, ∀ f, operationEntry table c.base
      (Fields.getD "components" static) version legacyPrefixes k ≠ .error (.failed f)) :
    ∃ document, (exec (build version legacyPrefixes) { disk, catalog := c }).1 = .ok document ∧
      ∀ k ∈ table.operations, Treats table static document
        (exec (build version legacyPrefixes) { disk, catalog := c }).2.events version
        legacyPrefixes k (OperationKey.parse k.slug c.base) := by
  obtain ⟨written, lines, hpaths, hcovers⟩ := exists_paths hfails
  obtain ⟨s, hexec, hevents⟩ := exec_build_of_ok hc hstatic htable hpaths
  rw [hexec]
  exact ⟨_, rfl, fun k hk => hcovers.treats hevents hk (hfails k hk)⟩

end Build

/-- Every operation of a tree of which the files can be read is described or told to be left out.
What decides is the key that is read from the slug of the operation: its own exactly for the legible
slugs, if the base path is empty or holds a character other than blanks and slashes. An operation is
left out by what its own key has only for want of the version and of a draft, or because the
identifier that it needs is missing. -/
theorem build_operations (root : FilePath) (base : String) (draftOnly : Bool)
    (exclusions : Option (List String)) (disk : Disk) (version : String)
    (legacyPrefixes : List String)
    (hload : Fragment.Readable disk (Fragment.discover disk root)) :
    let c := Catalog.make root base draftOnly exclusions
    let built := exec (build version legacyPrefixes) { disk, catalog := c }
    ∃ table, c.readTable disk = .ok table ∧
      (∀ fault, c.readStatic disk version = .error fault → built.1 = .error fault) ∧
      ∀ static, c.readStatic disk version = .ok static →
        (∀ k ∈ table.operations, ∀ f, operationEntry table c.base
          (Fields.getD "components" static) version legacyPrefixes k ≠ .error (.failed f)) →
        ∃ document, built.1 = .ok document ∧ ∀ k ∈ table.operations,
          (k.IsLegible c.base →
            Treats table static document built.2.events version legacyPrefixes k k) ∧
          (¬ k.IsLegible c.base → Treats table static document built.2.events version
            legacyPrefixes k (OperationKey.parse k.slug c.base)) ∧
          ((c.base = "" ∨ ∃ x ∈ c.base.toList, OperationKey.isSolid x = true) →
            (OperationKey.parse k.slug c.base = k ↔ k.IsLegible c.base)) ∧
          (∀ fault, table.resolve k (some version) = .error fault → ∃ defined,
            fault = .unknownVersion k.slug (versionOrDraft (some version)) defined table.known) ∧
          ∀ content, table.resolve k (some version) = .ok content →
            (Fields.has "operation" content = false ∨ (OperationView.named content).length ≤ 1) →
            (OperationView.ofFragment content k (some version) legacyPrefixes).isLegacy =
              .ok (legacyPrefixes.any (Text.startsWith k.slug)) := by
  intro c built
  -- the files of operations are among those of the tree
  have hfiles : Fragment.Readable disk (OperationTable.files disk c.root c.base) :=
    fun p hp => hload p (List.mem_of_mem_filter hp)
  obtain ⟨table, htable, hbelow⟩ := OperationTable.exists_build hfiles
  refine ⟨table, htable, fun fault => exec_build_of_error rfl, fun static hstatic hfails => ?_⟩
  obtain ⟨document, hdocument, htreats⟩ := exists_built rfl hstatic htable hfails
  refine ⟨document, hdocument, fun k hk => ?_⟩
  have hkey := hbelow.below k (OperationTable.mem_operations.mp hk)
  have hbase : trimBase c.base = c.base := OperationKey.trimBase_trimBase base
  refine ⟨fun hlegible => ?_, fun _ => htreats k hk, fun hplain => ?_,
    fun fault => OperationTable.resolve_error hk,
    fun content _ hnamed =>
      OperationView.isLegacy_ofFragment hnamed k (some version) legacyPrefixes⟩
  · have hown := htreats k hk
    rwa [OperationKey.parse_slug hkey hlegible] at hown
  · exact OperationKey.parse_slug_eq_iff hkey (by rwa [hbase])

/-! ## A tree with a space in the name of a folder -/

/-- A tree with two operations, of which the files hold empty mappings. -/
def twoFolders : Disk :=
  ⟨["w"],
    [(["w", "my widgets"], .directory),
      (["w", "my widgets", "get.yml"], .file "\x7b\x7d".toUTF8),
      (["w", "widgets"], .directory),
      (["w", "widgets", "get.yml"], .file "\x7b\x7d".toUTF8)]⟩

/-- The working directory. -/
def here : FilePath := ⟨.relative, []⟩

/-- The operation in the folder without a space. -/
def widgets : OperationKey := ⟨"get", "/api/widgets"⟩

/-- The operation in the folder with a space. -/
def myWidgets : OperationKey := ⟨"get", "/api/my widgets"⟩

theorem discover_twoFolders : Fragment.discover twoFolders here =
    [⟨.relative, ["my widgets", "get.yml"]⟩, ⟨.relative, ["widgets", "get.yml"]⟩] := by cbv

theorem readable_twoFolders : Fragment.Readable twoFolders (Fragment.discover twoFolders here) := by
  intro p hp
  rw [discover_twoFolders] at hp
  simp only [List.mem_cons, List.not_mem_nil, or_false] at hp
  rcases hp with rfl | rfl
  · exact ⟨[], Fragment.read_of_braces rfl⟩
  · exact ⟨[], Fragment.read_of_braces rfl⟩

theorem readTable_twoFolders : (Catalog.make here "/api").readTable twoFolders =
    .ok [(myWidgets, [("draft", [])]), (widgets, [("draft", [])])] := by
  have hfiles : OperationTable.files twoFolders here "/api" =
      [⟨.relative, ["my widgets", "get.yml"]⟩, ⟨.relative, ["widgets", "get.yml"]⟩] := by
    rw [OperationTable.files, discover_twoFolders]
    decide
  have hload : Fragment.Readable twoFolders (OperationTable.files twoFolders here "/api") :=
    fun p hp => readable_twoFolders p (List.mem_of_mem_filter hp)
  refine (OperationTable.build_eq hload).trans ?_
  -- the table is built file by file
  rw [hfiles, List.foldl_cons, List.foldl_cons, List.foldl_nil, OperationTable.addFile,
    OperationTable.addFile, Fragment.read_of_braces rfl, Fragment.read_of_braces rfl]
  rfl

theorem readStatic_twoFolders : (Catalog.make here "/api").readStatic twoFolders "draft" =
    .ok [("info", .single "version" "draft")] := by
  -- both files belong to operations
  have hfiles : StaticPart.files twoFolders here "draft" = [] := by
    rw [StaticPart.files, discover_twoFolders, List.filter_eq_nil_iff.mpr (by decide)]
    exact List.mergeSort_nil
  rw [Catalog.readStatic_eq]
  change (mergeFiles twoFolders here "/api"
    ((StaticPart.files twoFolders here "draft").map (·.render))).collect.1.map _ = _
  rw [hfiles]
  rfl

/-- The table of the two operations. -/
def twoTable : OperationTable := [(myWidgets, [("draft", [])]), (widgets, [("draft", [])])]

theorem operations_twoTable : twoTable.operations = [myWidgets, widgets] :=
  List.mergeSort_of_pairwise (by decide)

theorem parse_slug_myWidgets :
    OperationKey.parse myWidgets.slug "/api" = ⟨"/api/my", "/api/widgets/get"⟩ := by
  decide

theorem parse_slug_widgets : OperationKey.parse widgets.slug "/api" = widgets := by
  decide

theorem rendered_widgets (components : Value) :
    (OperationView.ofFragment [] widgets (some "draft") ["/"]).rendered components =
      .ok [("responses", .map [])] := rfl

theorem operationEntry_twoTable (components : Value) : ∀ k ∈ twoTable.operations, ∀ f,
    operationEntry twoTable "/api" components "draft" ["/"] k ≠ .error (.failed f) := by
  rw [operations_twoTable]
  intro k hk f
  simp only [List.mem_cons, List.not_mem_nil, or_false] at hk
  rcases hk with rfl | rfl
  · have hlookup : twoTable.resolve (OperationKey.parse myWidgets.slug "/api") (some "draft") =
        .error (.unknownOperation "/api/widgets/get//api/my" "draft" twoTable.known) := by
      rw [parse_slug_myWidgets]
      rfl
    simp [operationEntry_of_error hlookup]
  · have hlookup : twoTable.resolve (OperationKey.parse widgets.slug "/api") (some "draft") =
        .ok [] := by
      rw [parse_slug_widgets]
      rfl
    rw [operationEntry_of_ok components ["/"] hlookup, parse_slug_widgets, rendered_widgets]
    simp

/-- The operation in the folder without a space is described. -/
theorem build_operations_widgets :
    Fragment.Readable twoFolders (Fragment.discover twoFolders here) ∧
      ∃ document, (exec (build "draft" ["/"])
          { disk := twoFolders, catalog := Catalog.make here "/api" }).1 = .ok document ∧
        (Value.map document).at? (placeOf widgets) = some (.single "responses" (.map [])) := by
  refine ⟨readable_twoFolders, ?_⟩
  obtain ⟨table, htable, -, hbuilt⟩ :=
    build_operations here "/api" true none twoFolders "draft" ["/"] readable_twoFolders
  obtain rfl : twoTable = table := Except.ok.inj (readTable_twoFolders.symm.trans htable)
  obtain ⟨document, hdocument, htreats⟩ :=
    hbuilt _ readStatic_twoFolders (operationEntry_twoTable _)
  refine ⟨document, hdocument, ?_⟩
  have hk : widgets ∈ twoTable.operations := by
    rw [operations_twoTable]
    exact List.mem_cons_of_mem _ List.mem_cons_self
  have hlegible : widgets.IsLegible (Catalog.make here "/api").base :=
    ⟨.inr ⟨'a', ['p', 'i'], rfl, by decide⟩, by decide, fun c hc => by
      obtain rfl := Option.some.inj hc
      decide⟩
  have hid : ¬ (OperationView.ofFragment [] widgets (some "draft") ["/"]).LacksIdentifier :=
    fun hlacks => by cases hlacks.2
  obtain ⟨operation, hrendered, hplace⟩ := (((htreats widgets hk).1 hlegible).2 [] rfl).2 hid
  rw [rendered_widgets] at hrendered
  rw [hplace, ← Except.ok.inj hrendered]
  rfl

/-- The operation in the folder with a space has a fragment and needs no identifier, and is left out
all the same: what is read from its slug is no operation of the tree. -/
theorem build_skips_myWidgets :
    let c := Catalog.make here "/api"
    let built := exec (build "draft" ["/"]) { disk := twoFolders, catalog := c }
    c.readTable twoFolders = .ok twoTable ∧ myWidgets ∈ twoTable.operations ∧
      twoTable.resolve myWidgets (some "draft") = .ok [] ∧
      ¬ (OperationView.ofFragment [] myWidgets (some "draft") ["/"]).LacksIdentifier ∧
      ∃ document, built.1 = .ok document ∧
        (Value.map document).at? (placeOf myWidgets) = none ∧
        Skips [("info", .single "version" "draft")] document built.2.events myWidgets "draft"
          (.unknownOperation "/api/widgets/get//api/my" "draft"
            ["/api/my widgets/get", "/api/widgets/get"]) := by
  intro c built
  obtain ⟨document, hdocument, htreats⟩ := exists_built (c := c) rfl readStatic_twoFolders
    readTable_twoFolders (operationEntry_twoTable _)
  have hk : myWidgets ∈ twoTable.operations := by
    rw [operations_twoTable]
    exact List.mem_cons_self
  have hid : ¬ (OperationView.ofFragment [] myWidgets (some "draft") ["/"]).LacksIdentifier :=
    fun hlacks => by cases hlacks.2
  refine ⟨readTable_twoFolders, hk, rfl, hid, document, hdocument, ?_⟩
  have hknown : twoTable.known = ["/api/my widgets/get", "/api/widgets/get"] := by
    rw [OperationTable.known, operations_twoTable]
    decide
  have hskips := (htreats myWidgets hk).1 (.unknownOperation "/api/widgets/get//api/my" "draft"
    ["/api/my widgets/get", "/api/widgets/get"]) (by
      rw [← hknown, show OperationKey.parse myWidgets.slug c.base = _ from parse_slug_myWidgets]
      rfl)
  exact ⟨hskips.2, hskips⟩

end ApiTree.Document
