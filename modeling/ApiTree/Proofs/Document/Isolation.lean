import ApiTree.Proofs.Catalog.Origin
import ApiTree.Proofs.Catalog.Publish
import ApiTree.Proofs.Operation.Rendered

/-!
# How far operations are apart from one another

One file of an operation gets another content. The operations are the same ones then, and so is the
static part of each version; every operation that does not come from this file is described as it
was, or left out as it was (`build_of_write`). This holds as long as there is a document: an operation
whose fragment cannot be rendered at all takes the whole document with it (`exists_document_iff`).
-/

set_option autoImplicit false

namespace ApiTree.Document

open OperationTable

/-! ## When there is a document -/

/-- An operation does not stop the writer: what it resolves to, if anything, lacks the identifier that
it needs or has the shape of a description. -/
def Fits (table : OperationTable) (base : String) (components : Value) (version : String)
    (legacyPrefixes : List String) (k : OperationKey) : Prop :=
  let l := OperationKey.parse k.slug base
  ∀ content, table.resolve l (some version) = .ok content →
    let view := OperationView.ofFragment content l (some version) legacyPrefixes
    view.TellsIdentifier ∧ (view.LacksIdentifier ∨ view.HasShape components)

section

variable {table : OperationTable} {base : String} {components : Value} {version : String}
  {legacyPrefixes : List String}

theorem fits_iff {k : OperationKey} : Fits table base components version legacyPrefixes k ↔
    ∀ f, operationEntry table base components version legacyPrefixes k ≠ .error (.failed f) := by
  rw [Fits, ← not_exists]
  cases hresolve : table.resolve (OperationKey.parse k.slug base) (some version) with
  | ok content =>
    rw [operationEntry_of_ok components legacyPrefixes hresolve, OperationView.rendered_fails_iff,
      not_not]
    simp only [Except.ok.injEq, forall_eq']
  | error fault =>
    obtain ⟨report, hreport⟩ := exists_report_of_resolve hresolve
    rw [operationEntry_of_error hresolve]
    refine iff_of_true (fun content h => by cases h) ?_
    rintro ⟨f, hf⟩
    rw [Except.error.inj hf] at hreport
    cases hreport

theorem succeeds_addEntry {entry : OperationKey → Except Fault Fields} {k : OperationKey}
    (written : Fields) :
    Succeeds (addEntry entry written k) ↔ ∀ f, entry k ≠ .error (.failed f) := by
  rw [addEntry]
  cases entry k with
  | ok operation => simp
  | error fault =>
    cases fault with
    | failed f => simp [Fault.report?]
    | _ => simp [Fault.report?]

variable {c : Catalog} {disk : Disk}

theorem succeeds_builtFrom {static : Fields} (hstatic : c.readStatic disk version = .ok static)
    (htable : c.readTable disk = .ok table) :
    Succeeds (c.builtFrom disk disk version legacyPrefixes) ↔
      ∀ k ∈ table.operations, Fits table c.base (Fields.getD "components" static) version
        legacyPrefixes k := by
  have hentry (k : OperationKey) (_ : k ∈ table.operations) (written : Fields) :
      Succeeds (addEntry (operationEntry table c.base (Fields.getD "components" static) version
        legacyPrefixes) written k) ↔
          Fits table c.base (Fields.getD "components" static) version legacyPrefixes k := by
    rw [succeeds_addEntry, fits_iff]
  rw [Catalog.builtFrom, hstatic, ok_bind, htable, ok_bind,
    succeeds_bind_of_forall fun _ => succeeds_pure _, collect_paths]
  exact succeeds_foldlM hentry []

theorem exec_build_eq (hc : c.forget = c) :
    (exec (build version legacyPrefixes) { disk, catalog := c }).1 =
      c.builtFrom disk disk version legacyPrefixes := by
  have hgives := (remembers_start c disk hc).gives_build version legacyPrefixes
  exact hgives.1

/-- There is a document exactly if no operation stops the writer. -/
theorem exists_document_iff (hc : c.forget = c) {static : Fields}
    (hstatic : c.readStatic disk version = .ok static) (htable : c.readTable disk = .ok table) :
    (∃ document, (exec (build version legacyPrefixes) { disk, catalog := c }).1 = .ok document) ↔
      ∀ k ∈ table.operations, Fits table c.base (Fields.getD "components" static) version
        legacyPrefixes k := by
  rw [exec_build_eq hc]
  exact succeeds_builtFrom hstatic htable

/-! ## What one file makes of a document -/

/-- An operation that resolves alike in two tables has the same place in both documents. -/
theorem Treats.at?_eq {table' : OperationTable} {static document document' : Fields}
    {events events' : List Event} {k l : OperationKey}
    (h : Treats table static document events version legacyPrefixes k l)
    (h' : Treats table' static document' events' version legacyPrefixes k l)
    (hresolve : ∀ content, table'.resolve l (some version) = .ok content ↔
      table.resolve l (some version) = .ok content) :
    (Value.map document').at? (placeOf k) = (Value.map document).at? (placeOf k) := by
  cases hcontent : table.resolve l (some version) with
  | error fault =>
    cases hcontent' : table'.resolve l (some version) with
    | error fault' => exact (h'.1 fault' hcontent').2.trans (h.1 fault hcontent).2.symm
    | ok content =>
      rw [(hresolve content).mp hcontent'] at hcontent
      cases hcontent
  | ok content =>
    have hview := h.2 content hcontent
    have hview' := h'.2 content ((hresolve content).mpr hcontent)
    by_cases hlacks : (OperationView.ofFragment content l (some version)
        legacyPrefixes).LacksIdentifier
    · exact (hview'.1 hlacks).2.trans (hview.1 hlacks).2.symm
    · obtain ⟨operation, hrendered, hplace⟩ := hview.2 hlacks
      obtain ⟨operation', hrendered', hplace'⟩ := hview'.2 hlacks
      rw [hplace', hplace, Except.ok.inj (hrendered'.symm.trans hrendered)]

end

/-- Another content in the file of an operation leaves the operations as they are, what other files
resolve to, and the static parts. -/
theorem resolve_of_write {c : Catalog} (hroot : c.root.IsProper) {d d' : Disk} (hd : d.Sound)
    {p : FilePath} {bytes : ByteArray} (hp : p ∈ OperationTable.files d c.root c.base)
    (hwrite : d.write p bytes = .ok d')
    (hload : Fragment.Readable d (Fragment.discover d c.root))
    (hload' : Fragment.Readable d' (Fragment.discover d' c.root)) :
    (∀ version, c.readStatic d' version = c.readStatic d version) ∧
    ∃ table table', c.readTable d = .ok table ∧ c.readTable d' = .ok table' ∧
      table'.operations = table.operations ∧
      ∀ l version, resolvedOrigin? c.root c.base l (OperationTable.files d c.root c.base) version ≠
          some p →
        ∀ content, table'.resolve l version = .ok content ↔ table.resolve l version = .ok content := by
  obtain ⟨hmem, hkind⟩ := List.mem_filter.mp hp
  obtain ⟨d'', hwrite', hdiscover, hothers⟩ := Fragment.exists_write hd hmem bytes
  obtain rfl := Except.ok.inj (hwrite.symm.trans hwrite')
  have hread (q : FilePath) (hq : q ∈ Fragment.discover d c.root) (hqp : q ≠ p) :
      Fragment.read d' (FilePath.ofText q.render) = Fragment.read d (FilePath.ofText q.render) := by
    rw [Fragment.ofText_render_of_mem hd hroot hq]
    exact Fragment.read_congr (hothers q hq hqp)
  have hfiles : OperationTable.files d' c.root c.base = OperationTable.files d c.root c.base := by
    rw [OperationTable.files, OperationTable.files, hdiscover]
  refine ⟨fun version => c.readStatic_congr ?_ fun q hq => ?_, ?_⟩
  · rw [StaticPart.files, StaticPart.files, hdiscover]
  · -- the file of an operation is in no static part
    obtain ⟨hq, hstatic, -⟩ := StaticPart.mem_files.mp hq
    refine hread q hq fun hqp => ?_
    rw [Place.isOperationFile, Place.ofPath, Place.kind_ofParts defaultBase c.base, hqp] at hstatic
    rw [Place.ofPath, hstatic] at hkind
    cases hkind
  · rw [hdiscover] at hload'
    have hoperations : Fragment.Readable d (OperationTable.files d c.root c.base) :=
      fun q hq => hload q (List.mem_of_mem_filter hq)
    have hoperations' : Fragment.Readable d' (OperationTable.files d c.root c.base) :=
      fun q hq => hload' q (List.mem_of_mem_filter hq)
    obtain ⟨table, htable, -⟩ := OperationTable.exists_build hoperations
    obtain ⟨table', htable', -⟩ := OperationTable.exists_build (hfiles.symm ▸ hoperations')
    refine ⟨table, table', htable, htable',
      operations_congr hfiles hoperations hoperations' htable htable', fun l version horigin content => ?_⟩
    rw [resolve_build_iff (hfiles.symm ▸ hoperations') htable', resolve_build_iff hoperations htable,
      hfiles]
    refine exists_congr fun path => and_congr_right fun hpath => ?_
    have hne : path ≠ p := fun heq => horigin (heq ▸ hpath)
    rw [hread path (List.mem_of_mem_filter (resolvedOrigin?_mem hpath)) hne]

/-- Operations are apart from one another as long as there is a document. The file of one of them gets
another content, which can be read like that of all others. Then there are the same operations, and
there is a document before and after exactly if every operation lacks the identifier that it needs or
resolves to what has the shape of a description. In the two documents each operation is described,
or is told to be left out, by what it resolves to; and one that does not come from this file has the
same place in both, and stops the writer in neither or in both. -/
theorem build_of_write {c : Catalog} {rootText base : String} {draftOnly : Bool}
    {exclusions : Option (List String)}
    (hc : c = Catalog.make (FilePath.ofText rootText) base draftOnly exclusions) {d d' : Disk}
    (hd : d.Sound) {p : FilePath} {bytes : ByteArray}
    (hp : p ∈ OperationTable.files d c.root c.base) (hwrite : d.write p bytes = .ok d')
    (hload : Fragment.Readable d (Fragment.discover d c.root))
    (hload' : Fragment.Readable d' (Fragment.discover d' c.root)) (version : String)
    (legacyPrefixes : List String) :
    let built (disk : Disk) := exec (build version legacyPrefixes) { disk, catalog := c }
    ∃ table table', c.readTable d = .ok table ∧ c.readTable d' = .ok table' ∧
      table'.operations = table.operations ∧
      (∀ fault, c.readStatic d version = .error fault →
        (built d).1 = .error fault ∧ (built d').1 = .error fault) ∧
      ∀ static, c.readStatic d version = .ok static →
        let fits (table : OperationTable) :=
          Fits table c.base (Fields.getD "components" static) version legacyPrefixes
        let origin (k : OperationKey) := resolvedOrigin? c.root c.base
          (OperationKey.parse k.slug c.base) (OperationTable.files d c.root c.base) (some version)
        ((∃ document, (built d).1 = .ok document) ↔ ∀ k ∈ table.operations, fits table k) ∧
        ((∃ document, (built d').1 = .ok document) ↔ ∀ k ∈ table.operations, fits table' k) ∧
        (∀ k, origin k ≠ some p → (fits table' k ↔ fits table k)) ∧
        ∀ document document', (built d).1 = .ok document → (built d').1 = .ok document' →
          ∀ k ∈ table.operations,
            Treats table static document (built d).2.events version legacyPrefixes k
              (OperationKey.parse k.slug c.base) ∧
            Treats table' static document' (built d').2.events version legacyPrefixes k
              (OperationKey.parse k.slug c.base) ∧
            (origin k ≠ some p →
              (Value.map document').at? (placeOf k) = (Value.map document).at? (placeOf k)) := by
  intro built
  have hforget : c.forget = c := by rw [hc]; rfl
  have hroot : c.root.IsProper := by rw [hc]; exact FilePath.isProper_ofText rootText
  obtain ⟨hstatics, table, table', htable, htable', hoperations, hresolve⟩ :=
    resolve_of_write hroot hd hp hwrite hload hload'
  refine ⟨table, table', htable, htable', hoperations, fun fault hfault => ?_,
    fun static hstatic => ?_⟩
  · exact ⟨exec_build_of_error hforget hfault,
      exec_build_of_error hforget ((hstatics version).trans hfault)⟩
  · intro fits origin
    have hstatic' : c.readStatic d' version = .ok static := (hstatics version).trans hstatic
    have hiff : (∃ document, (built d).1 = .ok document) ↔ ∀ k ∈ table.operations, fits table k :=
      exists_document_iff hforget hstatic htable
    have hiff' : (∃ document, (built d').1 = .ok document) ↔
        ∀ k ∈ table'.operations, fits table' k :=
      exists_document_iff hforget hstatic' htable'
    rw [hoperations] at hiff'
    refine ⟨hiff, hiff', fun k hk => ?_, fun document document' hdocument hdocument' k hk => ?_⟩
    · exact forall_congr' fun content => imp_congr_left (hresolve _ (some version) hk content)
    · have hfails := fun k hk => fits_iff.mp (hiff.mp ⟨document, hdocument⟩ k hk)
      have hfails' := fun k hk => fits_iff.mp (hiff'.mp ⟨document', hdocument'⟩ k hk)
      obtain ⟨own, hown, htreats⟩ := exists_built hforget hstatic htable hfails
      obtain ⟨own', hown', htreats'⟩ :=
        exists_built hforget hstatic' htable' (hoperations.symm ▸ hfails')
      obtain rfl := Except.ok.inj (hown.symm.trans hdocument)
      obtain rfl := Except.ok.inj (hown'.symm.trans hdocument')
      have hk' : k ∈ table'.operations := hoperations.symm ▸ hk
      exact ⟨htreats k hk, htreats' k hk', fun horigin =>
        (htreats k hk).at?_eq (htreats' k hk') (hresolve _ (some version) horigin)⟩

/-! ## Two operations in one tree -/

/-- A tree with two operations, of which the second holds the given text. -/
def neighbours (text : String) : Disk :=
  ⟨["w"],
    [(["w", "a"], .directory),
      (["w", "a", "get.yml"], .file "\x7b\x7d".toUTF8),
      (["w", "b"], .directory),
      (["w", "b", "get.yml"], .file text.toUTF8)]⟩

/-- The catalog of the working directory. -/
def neighboursCatalog : Catalog := Catalog.make (FilePath.ofText ".") "/api"

/-- The operation that stays. -/
def kept : OperationKey := ⟨"get", "/api/a"⟩

/-- The operation whose file gets another content. -/
def replaced : OperationKey := ⟨"get", "/api/b"⟩

/-- The file of the operation that stays. -/
def keptFile : FilePath := ⟨.relative, ["a", "get.yml"]⟩

/-- The file that gets another content. -/
def replacedFile : FilePath := ⟨.relative, ["b", "get.yml"]⟩

theorem sound_neighbours (text : String) : (neighbours text).Sound := by
  -- what the files hold has no part in it
  have hkeys : (neighbours text).entries.map Prod.fst =
      [["w", "a"], ["w", "a", "get.yml"], ["w", "b"], ["w", "b", "get.yml"]] := rfl
  have hnames : ∀ l ∈ (neighbours text).entries.map Prod.fst,
      (∀ s ∈ l, FilePath.IsName s ∧ s ≠ "..") ∧ ¬ l <+: ["w"] := by
    rw [hkeys]
    decide
  refine ⟨by rw [Entries.keys, hkeys]; decide,
    fun e he => (hnames e.1 (List.mem_map_of_mem he)).1, ?_,
    fun l content h => (hnames l (List.mem_map_of_mem (f := Prod.fst) h)).2⟩
  simp only [neighbours, List.forall_mem_cons]
  exact ⟨rfl, rfl, rfl, rfl, fun _ h => by cases h⟩

theorem discover_neighbours (text : String) :
    Fragment.discover (neighbours text) neighboursCatalog.root = [keptFile, replacedFile] := by
  cbv

theorem files_neighbours (text : String) :
    OperationTable.files (neighbours text) neighboursCatalog.root neighboursCatalog.base =
      [keptFile, replacedFile] := by
  rw [OperationTable.files, discover_neighbours]
  decide

theorem read_keptFile (text : String) : Fragment.read (neighbours text) keptFile = .ok [] :=
  Fragment.read_of_braces rfl

/-- The table of the two operations. -/
def neighboursTable (content : Fields) : OperationTable :=
  [(kept, [("draft", [])]), (replaced, [("draft", content)])]

section

variable {text : String} {content : Fields}
  (hread : Fragment.read (neighbours text) replacedFile = .ok content)

include hread

theorem readable_neighbours :
    Fragment.Readable (neighbours text)
      (Fragment.discover (neighbours text) neighboursCatalog.root) := by
  rw [discover_neighbours]
  intro q hq
  simp only [List.mem_cons, List.not_mem_nil, or_false] at hq
  rcases hq with rfl | rfl
  · exact ⟨[], read_keptFile text⟩
  · exact ⟨content, hread⟩

theorem readTable_neighbours : neighboursCatalog.readTable (neighbours text) =
    .ok (neighboursTable content) := by
  have hload : Fragment.Readable (neighbours text) (OperationTable.files (neighbours text)
      neighboursCatalog.root neighboursCatalog.base) :=
    fun q hq => readable_neighbours hread q (List.mem_of_mem_filter hq)
  have hkept : Fragment.read (neighbours text) (FilePath.ofText keptFile.render) = .ok [] :=
    read_keptFile text
  have hreplaced : Fragment.read (neighbours text) (FilePath.ofText replacedFile.render) =
      .ok content := hread
  refine (OperationTable.build_eq hload).trans ?_
  rw [files_neighbours, List.foldl_cons, List.foldl_cons, List.foldl_nil, OperationTable.addFile,
    OperationTable.addFile, hkept, hreplaced]
  rfl

end

theorem readStatic_neighbours (text : String) :
    neighboursCatalog.readStatic (neighbours text) "draft" =
      .ok [("info", .single "version" "draft")] := by
  -- both files belong to operations
  have hfiles : StaticPart.files (neighbours text) neighboursCatalog.root "draft" = [] := by
    rw [StaticPart.files, discover_neighbours, List.filter_eq_nil_iff.mpr (by decide)]
    exact List.mergeSort_nil
  rw [Catalog.readStatic_eq, hfiles]
  rfl

theorem write_neighbours (text : String) :
    (neighbours "\x7b\x7d").write replacedFile text.toUTF8 = .ok (neighbours text) :=
  rfl

theorem mem_operations_neighbours {content : Fields} {k : OperationKey} :
    k ∈ (neighboursTable content).operations ↔ k = kept ∨ k = replaced := by
  rw [OperationTable.mem_operations]
  simp [neighboursTable, Entries.keys]

/-- Whether there is a document is decided by what the file holds. -/
theorem exists_document_neighbours {text : String} {content : Fields}
    (hread : Fragment.read (neighbours text) replacedFile = .ok content) :
    (∃ document, (exec (build "draft" ["/"])
        { disk := neighbours text, catalog := neighboursCatalog }).1 = .ok document) ↔
      ∀ f, (OperationView.ofFragment content replaced (some "draft") ["/"]).rendered ≠
        .error (.failed f) := by
  have hkept : (neighboursTable content).resolve
      (OperationKey.parse kept.slug neighboursCatalog.base) (some "draft") = .ok [] := by
    rw [show OperationKey.parse kept.slug neighboursCatalog.base = kept by decide]
    rfl
  have hparse : OperationKey.parse replaced.slug neighboursCatalog.base = replaced := by decide
  have hreplaced : (neighboursTable content).resolve
      (OperationKey.parse replaced.slug neighboursCatalog.base) (some "draft") = .ok content := by
    rw [hparse]
    rfl
  rw [exists_document_iff rfl (readStatic_neighbours text) (readTable_neighbours hread)]
  simp only [mem_operations_neighbours, forall_eq_or_imp, forall_eq, fits_iff]
  rw [operationEntry_of_ok _ ["/"] hkept, operationEntry_of_ok _ ["/"] hreplaced, hparse]
  refine and_iff_right fun f => ?_
  rintro ⟨⟩

/-- A summary in the one file leaves the operation in the other as it was. -/
theorem build_of_write_summary :
    let d := neighbours "\x7b\x7d"
    let d' := neighbours "summary: B\n"
    let built (disk : Disk) := exec (build "draft" ["/"]) { disk, catalog := neighboursCatalog }
    replacedFile ∈ OperationTable.files d neighboursCatalog.root neighboursCatalog.base ∧
      d.write replacedFile "summary: B\n".toUTF8 = .ok d' ∧
      ∃ document document', (built d).1 = .ok document ∧ (built d').1 = .ok document' ∧
        (Value.map document').at? (placeOf kept) = (Value.map document).at? (placeOf kept) := by
  intro d d' built
  have hread : Fragment.read d replacedFile = .ok [] := Fragment.read_of_braces rfl
  have hread' : Fragment.read d' replacedFile = .ok [(.str "summary", .str "B")] :=
    Fragment.read_of_text "summary: B\n" rfl (by cbv) (by decide +kernel)
  have hp : replacedFile ∈
      OperationTable.files d neighboursCatalog.root neighboursCatalog.base := by
    rw [files_neighbours]
    decide
  obtain ⟨table, table', htable, -, -, -, hdocuments⟩ := build_of_write
    (show neighboursCatalog = Catalog.make (FilePath.ofText ".") "/api" true none from rfl)
    (sound_neighbours _) hp (write_neighbours _) (readable_neighbours hread)
    (readable_neighbours hread') "draft" ["/"]
  obtain rfl : neighboursTable [] = table :=
    Except.ok.inj ((readTable_neighbours hread).symm.trans htable)
  obtain ⟨-, -, -, hplaces⟩ := hdocuments _ (readStatic_neighbours _)
  obtain ⟨document, hdocument⟩ := (exists_document_neighbours hread).mpr fun f => by rintro ⟨⟩
  obtain ⟨document', hdocument'⟩ := (exists_document_neighbours hread').mpr fun f => by rintro ⟨⟩
  refine ⟨hp, write_neighbours _, document, document', hdocument, hdocument', ?_⟩
  refine (hplaces document document' hdocument hdocument' kept
    (mem_operations_neighbours.mpr (.inl rfl))).2.2 ?_
  rw [files_neighbours]
  decide

/-- A number in the place of the parameters of one operation leaves nothing of the document, in
which there was another operation as well. -/
theorem build_stopped_by_parameters :
    let d := neighbours "\x7b\x7d"
    let d' := neighbours "parameters: 5\n"
    let built (disk : Disk) := exec (build "draft" ["/"]) { disk, catalog := neighboursCatalog }
    replacedFile ∈ OperationTable.files d neighboursCatalog.root neighboursCatalog.base ∧
      d.write replacedFile "parameters: 5\n".toUTF8 = .ok d' ∧
      Fragment.Readable d (Fragment.discover d neighboursCatalog.root) ∧
      Fragment.Readable d' (Fragment.discover d' neighboursCatalog.root) ∧
      (∃ document, (built d).1 = .ok document) ∧
      ¬ ∃ document, (built d').1 = .ok document := by
  intro d d' built
  have hread : Fragment.read d replacedFile = .ok [] := Fragment.read_of_braces rfl
  have hread' : Fragment.read d' replacedFile = .ok [(.str "parameters", .int 5)] :=
    Fragment.read_of_text "parameters: 5\n" rfl (by cbv) (by decide +kernel)
  refine ⟨?_, write_neighbours _, readable_neighbours hread, readable_neighbours hread', ?_, ?_⟩
  · rw [files_neighbours]
    decide
  · exact (exists_document_neighbours hread).mpr fun f => by rintro ⟨⟩
  · rw [exists_document_neighbours hread']
    exact fun hfails => hfails .wrongKind rfl

end ApiTree.Document
