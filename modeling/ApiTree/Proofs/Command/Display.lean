import ApiTree.Proofs.Command.Strict

/-!
# Showing what is built

A command shows what a document says of one operation, which it works out for this operation alone.
The writer works out all operations of a version and puts them over the static part. Both come to the
same for every operation of the tree (`run_display`): what the writer leaves out is not shown, for the
same reason, and what it describes is shown as it was before it was put over the static part.
-/

set_option autoImplicit false

namespace ApiTree

/-! ## The operations of a document -/

namespace Document

/-- The document of a version has an operation object at the place of an operation: on top of the
mapping that the static part has there, or as it is. -/
def Documents (static document : Fields) (k : OperationKey) (operation : Fields) : Prop :=
  (Value.map document).at? (placeOf k) =
    match (Value.map static).at? (placeOf k) with
    | some (.map under) => some (.map (Value.mergeEntries under operation))
    | _ => some (.map operation)

/-- What the writer makes of an operation is in the document, or the log tells that it is left out. -/
theorem documents_or_skips {c : Catalog} (hc : c.forget = c) {disk : Disk} {version : String}
    {legacyPrefixes : List String} {document static : Fields} {table : OperationTable} {s : Session}
    (hbuilt : exec (build version legacyPrefixes) { disk, catalog := c } = (.ok document, s))
    (hstatic : c.readStatic disk version = .ok static) (htable : c.readTable disk = .ok table)
    {k : OperationKey} (hk : k ∈ table.operations) :
    let entry := operationEntry table c.base (Fields.getD "components" static) version
      legacyPrefixes k
    (∀ operation, entry = .ok operation → Documents static document k operation) ∧
      ∀ fault, entry = .error fault → Skips static document s.events k version fault := by
  have hfails : ∀ k ∈ table.operations, ∀ f, operationEntry table c.base
      (Fields.getD "components" static) version legacyPrefixes k ≠ .error (.failed f) := by
    have hanswer : (exec (build version legacyPrefixes) { disk, catalog := c }).1 = _ :=
      exec_build_eq hc
    rw [hbuilt, Catalog.builtFrom, hstatic, ok_bind, htable, ok_bind] at hanswer
    obtain ⟨written, hwritten, -⟩ := bind_eq_ok.mp hanswer.symm
    rw [collect_paths] at hwritten
    exact (succeeds_foldlM (fun k _ written => succeeds_addEntry written) []).mp ⟨_, hwritten⟩
  obtain ⟨written, lines, hpaths, hcovers⟩ := exists_paths hfails
  obtain ⟨t, hexec, hevents⟩ := exec_build_of_ok hc hstatic htable hpaths
  obtain ⟨hdocument, rfl⟩ := Prod.mk.inj (hbuilt.symm.trans hexec)
  obtain rfl := Except.ok.inj hdocument
  refine ⟨fun operation hentry => ?_, fun fault => hcovers.skips hevents hk⟩
  refine (at?_built hcovers.once k).trans ?_
  rw [hcovers.described k hk operation hentry]
  cases (Value.map static).at? (placeOf k) with
  | none => rfl
  | some v => cases v <;> rfl

end Document

open Document

namespace Command

/-! ## One operation -/

/-- The text that is shown for a description: its JSON. -/
def shownText (described : Except Fault Fields) : Except Fault String := do
  (Console.document (.map (← described))).mapError .failed

theorem exec_put (text : Except Failure String) (s : Session) :
    let t := exec (Console.put text) s
    t.1 = (text.mapError Fault.failed).map (fun _ => ()) ∧
      t.2.output = s.output ++ text.toOption.getD "" := by
  intro t
  cases text with
  | error f => exact ⟨rfl, (String.append_empty).symm⟩
  | ok text =>
    refine ⟨rfl, ?_⟩
    change ({ s with events := s.events ++ [.output text] } : Session).output = _
    rw [Session.output, List.map_append, String.join_append]
    simp [Session.output, outputText, Except.toOption]

variable {settings : Settings} {disk : Disk} {k : OperationKey} {version : String} {static : Fields}
  {table : OperationTable}

/-- The view of an operation comes from the table, and nothing is shown on the way. -/
theorem exists_exec_view (htable : settings.catalog.readTable disk = .ok table) (k : OperationKey)
    (version : String) :
    ∃ h t, exec (Run.view k.slug (some version) settings.legacyPrefixes)
        { disk, catalog := settings.catalog } =
          (table.view settings.catalog.base k.slug (some version) settings.legacyPrefixes, t) ∧
      Remembers settings.catalog h t ∧ h.staticTree = (fun _ => disk) ∧ t.output = "" := by
  obtain ⟨hanswer, hkept⟩ := (remembers_settings settings disk).gives_table
  have hsilent := onlyLogs_table.output { disk, catalog := settings.catalog }
  rcases hexec : exec Run.table { disk, catalog := settings.catalog } with ⟨result, t⟩
  rw [hexec] at hanswer hkept hsilent
  obtain rfl : result = .ok table := hanswer.trans htable
  refine ⟨_, t, ?_, hkept, (History.tree_readTable _ _).2.1, hsilent⟩
  rw [Run.view, exec_bind_of_ok (Run.exec_catalog _), exec_bind_of_ok hexec, exec_liftM]

/-- The static part comes from the tree, and nothing is shown on the way. -/
theorem exists_exec_staticDocument {h : History} {t : Session} {w : String}
    (hr : Remembers settings.catalog h t) (htree : h.staticTree = fun _ => disk)
    (hstatic : settings.catalog.readStatic disk w = .ok static) :
    ∃ u, exec (Run.staticDocument w) t = (.ok static, u) ∧ u.output = t.output := by
  obtain ⟨hanswer, -⟩ := hr.gives_staticDocument w
  rw [htree, hstatic] at hanswer
  have hsilent := (onlyLogs_staticDocument w).output t
  rcases hexec : exec (Run.staticDocument w) t with ⟨result, u⟩
  rw [hexec] at hanswer hsilent
  obtain rfl := hanswer
  exact ⟨u, rfl, hsilent⟩

/-- What is shown of an operation is made as the writer makes it, with the components of the static
part of the version, or of the draft for the empty one. -/
theorem exec_display
    (hstatic : settings.catalog.readStatic disk (versionOrDraft (some version)) = .ok static)
    (htable : settings.catalog.readTable disk = .ok table) :
    let shown := shownText (operationEntry table settings.catalog.base
      (Fields.getD "components" static) version settings.legacyPrefixes k)
    let t := exec (display settings k.slug (some version) false)
      { disk, catalog := settings.catalog }
    t.1 = shown.map (fun _ => ()) ∧ t.2.output = shown.toOption.getD "" := by
  intro shown t
  obtain ⟨h, u, hview, hr, htree, hsilent⟩ := exists_exec_view htable k version
  obtain ⟨v, hmade, hsilent'⟩ := exists_exec_staticDocument hr htree hstatic
  rw [hsilent] at hsilent'
  -- the view may fail, then the description, and then the JSON
  simp only [shown, t, shownText, operationEntry, display, exec_bind, hview, exec_liftM,
    Bool.false_eq_true, if_false]
  cases table.view settings.catalog.base k.slug (some version) settings.legacyPrefixes with
  | error fault => exact ⟨rfl, hsilent⟩
  | ok view =>
    simp only [ok_bind, hmade]
    cases view.rendered (Fields.getD "components" static) with
    | error fault => exact ⟨rfl, hsilent'⟩
    | ok operation =>
      obtain ⟨hresult, houtput⟩ := exec_put (Console.document (.map operation)) v
      refine ⟨hresult, houtput.trans ?_⟩
      rw [hsilent', String.empty_append, ok_bind]
      cases Console.document (.map operation) <;> rfl

/-- A run shows an operation object: it ends well, and what it writes to the standard output is the
JSON of the object. An object that JSON cannot write is not shown. -/
def Shows (outcome : Outcome) (operation : Fields) : Prop :=
  match Console.document (.map operation) with
  | .ok text => outcome.exitCode = 0 ∧ outcome.stdout = text
  | .error _ => outcome.exitCode = 1 ∧ outcome.stdout = ""

/-- A run does not show two objects whose JSON differs. -/
theorem Shows.toOption_eq {outcome : Outcome} {operation other : Fields}
    (h : Shows outcome operation) (h' : Shows outcome other) :
    (Console.document (.map operation)).toOption = (Console.document (.map other)).toOption := by
  rw [Shows] at h h'
  cases htext : Console.document (.map operation) with
  | error f =>
    rw [htext] at h
    cases hother : Console.document (.map other) with
    | error f' => rfl
    | ok text =>
      rw [hother] at h'
      exact absurd (h.1.symm.trans h'.1) (by decide)
  | ok text =>
    rw [htext] at h
    cases hother : Console.document (.map other) with
    | error f =>
      rw [hother] at h'
      exact absurd (h.1.symm.trans h'.1) (by decide)
    | ok text' =>
      rw [hother] at h'
      exact congrArg some (h.2.symm.trans h'.2)

/-- A run that ends with a fault and shows nothing. -/
def FailsWith (outcome : Outcome) (fault : Fault) : Prop :=
  outcome.exitCode = exitCodeOf (.error fault) ∧ outcome.stdout = ""

section

variable {args : List String} {common : Common} {environment : Environment}

/-- A command line that asks for one operation shows what the writer makes of it, or fails as the
writer does. -/
theorem run_display
    (hargs : Request.ofArguments args = .perform common (.display k.slug (some version) false))
    (terminal : Bool)
    (hsettings : settingsOf disk environment common (.display k.slug (some version) false) =
      .ok settings)
    (hstatic : settings.catalog.readStatic disk (versionOrDraft (some version)) = .ok static)
    (htable : settings.catalog.readTable disk = .ok table) :
    let outcome := run args environment terminal disk
    let entry := operationEntry table settings.catalog.base (Fields.getD "components" static) version
      settings.legacyPrefixes k
    (∀ operation, entry = .ok operation → Shows outcome operation) ∧
      ∀ fault, entry = .error fault → FailsWith outcome fault := by
  intro outcome entry
  obtain ⟨hcode, hstdout, -⟩ := run_of_perform hargs environment terminal disk
  obtain ⟨hresult, houtput⟩ := exec_display (k := k) hstatic htable
  rw [exec_perform, hsettings] at hcode hstdout
  have hcode' : outcome.exitCode = exitCodeOf ((shownText entry).map fun _ => ()) :=
    hcode.trans (congrArg exitCodeOf hresult)
  have hstdout' : outcome.stdout = (shownText entry).toOption.getD "" := hstdout.trans houtput
  rw [shownText] at hcode' hstdout'
  refine ⟨fun operation hentry => ?_, fun fault hentry => ?_⟩
  · rw [hentry, ok_bind] at hcode' hstdout'
    rw [Shows]
    cases htext : Console.document (.map operation) with
    | error f =>
      rw [htext] at hcode' hstdout'
      exact ⟨hcode', hstdout'⟩
    | ok text =>
      rw [htext] at hcode' hstdout'
      exact ⟨hcode', hstdout'⟩
  · rw [hentry] at hcode' hstdout'
    exact ⟨hcode', hstdout'⟩

end

/-! ## An operation whose body is a component with examples -/

/-- The text of a file that has a body with an example among its components. -/
def bodyText : String :=
  "components:
  requestBodies:
    b:
      content:
        application/json:
          examples:
            a: 1
"

/-- A tree with this file and an operation. -/
def bodyTree (text : String) : Disk :=
  ⟨["w"],
    [(["w", "spec"], .directory), (["w", "spec", "api"], .directory),
      (["w", "spec", "api", "bodies.yml"], .file bodyText.toUTF8),
      (["w", "spec", "api", "get.yml"], .file text.toUTF8)]⟩

/-- The operation of the tree. -/
def embodied : OperationKey := ⟨"get", "/api"⟩

/-- The table of the tree. -/
def bodyTable (content : Fields) : OperationTable := [(embodied, [("draft", content)])]

/-- The components of the tree. -/
def bodyComponents : Value :=
  .single "requestBodies" (.single "b" (.single "content" (.single "application/json"
    (.single "examples" (.single "a" (.int 1))))))

/-- The static part of the draft, with the components. -/
def draftPart : Fields :=
  [(.str "info", .single "version" "draft"), (.str "components", bodyComponents)]

/-- The static part of the empty version, to which no file belongs. -/
def emptyPart : Fields := [(.str "info", .single "version" "")]

/-- The usual settings. -/
def usual : Settings := {}

/-- The text of the operation, which takes the body. -/
def plainText : String := "id: A\nrequest_body: b\n"

/-- What the text says. -/
def plainContent : Fields := [(.str "id", .str "A"), (.str "request_body", .str "b")]

/-- The text of the operation with a date for the media type of the body. -/
def datedText : String := "id: A\nrequest_body: b\nrequest_content_type: 2020-01-01\n"

/-- What this text says. -/
def datedContent : Fields :=
  plainContent ++ [(.str "request_content_type", .date ⟨2020, 1, 1⟩)]

section

variable {text : String} {content : Fields}

theorem parse_texts :
    let parse (file text : String) := Fragment.parse (FilePath.ofText file).render text
    parse "spec/api/bodies.yml" bodyText = .ok [(.str "components", bodyComponents)] ∧
      parse "spec/api/get.yml" plainText = .ok plainContent ∧
      parse "spec/api/get.yml" datedText = .ok datedContent := by
  decide +kernel

theorem read_bodies : Fragment.read (bodyTree text) (FilePath.ofText "spec/api/bodies.yml") =
    .ok [(.str "components", bodyComponents)] :=
  Fragment.read_of_text bodyText rfl (Fragment.decode_toUTF8 rfl) parse_texts.1

theorem read_plain : Fragment.read (bodyTree plainText) (FilePath.ofText "spec/api/get.yml") =
    .ok plainContent :=
  Fragment.read_of_text plainText rfl (Fragment.decode_toUTF8 rfl) parse_texts.2.1

theorem read_dated : Fragment.read (bodyTree datedText) (FilePath.ofText "spec/api/get.yml") =
    .ok datedContent :=
  Fragment.read_of_text datedText rfl (Fragment.decode_toUTF8 rfl) parse_texts.2.2

theorem files_bodyTree (text : String) :
    OperationTable.files (bodyTree text) usual.catalog.root usual.catalog.base =
      [⟨.relative, ["spec", "api", "get.yml"]⟩] := by
  cbv

theorem readTable_bodyTree
    (hread : Fragment.read (bodyTree text) (FilePath.ofText "spec/api/get.yml") = .ok content) :
    usual.catalog.readTable (bodyTree text) = .ok (bodyTable content) := by
  have hload : Fragment.Readable (bodyTree text)
      (OperationTable.files (bodyTree text) usual.catalog.root usual.catalog.base) := by
    rw [files_bodyTree]
    intro p hp
    obtain rfl := List.mem_singleton.mp hp
    exact ⟨_, hread⟩
  have hread' : Fragment.read (bodyTree text)
      (FilePath.ofText (FilePath.render ⟨.relative, ["spec", "api", "get.yml"]⟩)) = .ok content :=
    hread
  refine (OperationTable.build_eq hload).trans ?_
  rw [files_bodyTree, List.foldl_cons, List.foldl_nil, OperationTable.addFile, hread']
  cbv

theorem staticFiles_bodyTree (text : String) :
    StaticPart.files (bodyTree text) usual.catalog.root "draft" =
      [⟨.relative, ["spec", "api", "bodies.yml"]⟩] := by
  cbv

theorem staticFiles_bodyTree_empty (text : String) :
    StaticPart.files (bodyTree text) usual.catalog.root "" = [] := by
  cbv

theorem readStatic_bodyTree (text : String) :
    usual.catalog.readStatic (bodyTree text) "draft" = .ok draftPart := by
  have hfile : expandedContribution (bodyTree text) usual.catalog.root usual.catalog.base
      "spec/api/bodies.yml" = .ok [(.str "components", bodyComponents)] := by
    rw [expandedContribution, unexpandedContribution, collect_eq_exec, Fragment.fst_exec_load,
      read_bodies]
    rfl
  rw [Catalog.readStatic_eq, staticFiles_bodyTree, collect_mergeFiles]
  change (mergeEach _ ["spec/api/bodies.yml"]).map _ = _
  rw [mergeEach, List.foldlM_cons, hfile]
  rfl

theorem readStatic_bodyTree_empty (text : String) :
    usual.catalog.readStatic (bodyTree text) "" = .ok emptyPart := by
  rw [Catalog.readStatic_eq, staticFiles_bodyTree_empty]
  rfl

theorem mem_operations_bodyTable {k : OperationKey} :
    k ∈ (bodyTable content).operations ↔ k = embodied := by
  rw [OperationTable.mem_operations]
  simp [bodyTable, Entries.keys]

theorem settingsOf_bodyTree (text version : String) :
    settingsOf (bodyTree text) [] {} (.display embodied.slug (some version) false) = .ok usual :=
  rfl

/-- There is a document if the operation is described. -/
theorem exists_built_bodyTree
    (hread : Fragment.read (bodyTree text) (FilePath.ofText "spec/api/get.yml") = .ok content)
    (hstatic : usual.catalog.readStatic (bodyTree text) version = .ok static) {operation : Fields}
    (hentry : operationEntry (bodyTable content) usual.catalog.base (Fields.getD "components" static)
      version usual.legacyPrefixes embodied = .ok operation) :
    ∃ document s, exec (Document.build version usual.legacyPrefixes)
      { disk := bodyTree text, catalog := usual.catalog } = (.ok document, s) := by
  have hfails : ∀ k ∈ (bodyTable content).operations, ∀ f, operationEntry (bodyTable content)
      usual.catalog.base (Fields.getD "components" static) version usual.legacyPrefixes k ≠
        .error (.failed f) := by
    intro k hk f hfails
    obtain rfl := mem_operations_bodyTable.mp hk
    cases hentry.symm.trans hfails
  obtain ⟨document, hdocument, -⟩ := exists_built rfl hstatic (readTable_bodyTree hread) hfails
  exact ⟨document, _, Prod.ext hdocument rfl⟩

end

/-- What a document says of the operation, with the given media type and examples of its body. -/
def embodiedWith (type : Value) (examples : Fields) : Fields :=
  let schema := Value.reference "#/components/requestBodies/b/content/application~1json/schema"
  let media : Fields := (.str "schema", schema) :: OperationView.entryIfAny "examples" (.map examples)
  [(.str "operationId", .str "A"),
    (.str "requestBody",
      .map [(.str "content", .map [(type, .map media)]), (.str "required", .bool true)]),
    (.str "responses", .map [])]

/-- The example of the body. -/
def bodyExample : Fields :=
  [(.str "a", .reference "#/components/requestBodies/b/content/application~1json/examples/a")]

/-- What describes the operation in the draft, with a plain media type or with a date for it, and in
the empty version, with its own components or with those of the draft. -/
theorem operationEntry_bodyTable :
    let entry (content static : Fields) (version : String) := operationEntry (bodyTable content)
      usual.catalog.base (Fields.getD "components" static) version usual.legacyPrefixes embodied
    entry plainContent draftPart "draft" = .ok (embodiedWith "application/json" bodyExample) ∧
      entry datedContent draftPart "draft" =
        .ok (embodiedWith (.date ⟨2020, 1, 1⟩) bodyExample) ∧
      entry plainContent emptyPart "" = .ok (embodiedWith "application/json" []) ∧
      entry plainContent draftPart "" = .ok (embodiedWith "application/json" bodyExample) :=
  ⟨rfl, rfl, rfl, rfl⟩

/-- The JSON of a value that is one of JSON already. -/
theorem document_eq {v : Value} (h : Json.plain v = .ok v) :
    Console.document v = .ok (Console.data (String.ofList (Json.write 0 v))) := by
  rw [Console.document, Json.render, h]
  rfl

theorem toOption_document_ne :
    (Console.document (.map (embodiedWith "application/json" []))).toOption ≠
      (Console.document (.map (embodiedWith "application/json" bodyExample))).toOption := by
  have hwrite : Json.write 0 (.map (embodiedWith "application/json" [])) ≠
      Json.write 0 (.map (embodiedWith "application/json" bodyExample)) := by decide +kernel
  rw [document_eq rfl, document_eq rfl]
  intro heq
  have hdata := congrArg String.toList (Option.some.inj heq)
  rw [Console.data, Console.data, String.toList_append, String.toList_append] at hdata
  exact hwrite (String.ofList_injective (String.toList_inj.mp (List.append_cancel_right hdata)))

/-- A date is no key of JSON. -/
theorem document_dated :
    Console.document (.map (embodiedWith (.date ⟨2020, 1, 1⟩) bodyExample)) = .error .wrongKind :=
  rfl

theorem ofArguments_display :
    Request.ofArguments ["show", "/api/get", "--api-version", "draft"] =
        .perform {} (.display embodied.slug (some "draft") false) ∧
      Request.ofArguments ["show", "/api/get", "--api-version", ""] =
        .perform {} (.display embodied.slug (some "") false) :=
  ⟨rfl, rfl⟩

end Command
end ApiTree
