import ApiTree.Proofs.Entries
import ApiTree.Proofs.Settings.Project

/-!
# Layers of settings

Each setting has the value of the highest layer that gives it: the command line, the environment,
the project file, and its usual value below them. The settings are found unless the project file is
refused, the flag of the environment is no word for a truth value, or one of these values is refused
(`resolve_of_layers`). What a higher layer hides and what no setting is named by does not matter.
-/

set_option autoImplicit false

namespace ApiTree.Settings

/-! ## One layer -/

/-- A layer over the settings: names of settings, each with its value if the layer gives one. -/
abbrev Layer := List (String × Option Value)

namespace Layer

/-- The value that the layer gives to a setting. -/
def value? (l : Layer) (name : String) : Option Value := (l.lookup name).join

/-- The settings that the layer gives. -/
def fields (l : Layer) : Fields := l.filterMap fun p => p.2.map (Value.str p.1, ·)

theorem keys_fields_sublist (l : Layer) :
    (Entries.keys l.fields).Sublist (l.map fun p => Value.str p.1) := by
  induction l with
  | nil => exact .slnil
  | cons p l ih =>
    rw [fields, List.filterMap_cons, List.map_cons]
    cases p.2 with
    | none => exact ih.cons _
    | some v => exact ih.cons_cons _

theorem nodup_keys_fields {l : Layer} (h : (l.map Prod.fst).Nodup) :
    (Entries.keys l.fields).Nodup := by
  refine List.Nodup.sublist (keys_fields_sublist l) ?_
  have hnames : (l.map fun p => Value.str p.1) = (l.map Prod.fst).map Value.str :=
    List.map_map.symm
  rw [hnames]
  exact h.map fun _ _ => Value.str.inj

/-- What the layer gives to a setting can be read off the entries that it gives. -/
theorem get?_fields {l : Layer} (h : (l.map Prod.fst).Nodup) (name : String) :
    Fields.get? name l.fields = l.value? name := by
  induction l with
  | nil => rfl
  | cons p l ih =>
    obtain ⟨first, v?⟩ := p
    rw [List.map_cons, List.nodup_cons] at h
    rw [value?, List.lookup_cons, fields, List.filterMap_cons]
    by_cases hname : name = first
    · subst hname
      rw [beq_self_eq_true]
      cases v? with
      | some v => exact if_pos rfl
      | none =>
        -- the name is not given again
        refine (ih h.2).trans ?_
        rw [value?, List.lookup_eq_none_iff.mpr]
        · rfl
        · intro q hq
          exact bne_iff_ne.mpr fun heq => h.1 (List.mem_map.mpr ⟨q, hq, heq.symm⟩)
    · rw [beq_false_of_ne hname]
      refine Eq.trans ?_ (ih h.2)
      cases v? with
      | some v => exact if_neg fun heq => hname (Value.str.inj heq).symm
      | none => rfl

end Layer

/-! ## The layers -/

/-- The settings that the command line can give. -/
structure Overrides where
  root : Option String := none
  outputDir : Option String := none
  format : Option String := none
  draftOnly : Option Bool := none
  deriving DecidableEq, Inhabited

/-- The command line as a layer. -/
def Overrides.layer (o : Overrides) : Layer :=
  [("root", o.root.map .str), ("output_dir", o.outputDir.map .str),
   ("output_format", o.format.map .str), ("draft_only", o.draftOnly.map .bool)]

/-- The settings that a command gives. -/
def Overrides.ofCommand (common : Command.Common) (action : Command.Action) : Overrides :=
  match action with
  | .build output format _ _ =>
    { root := common.root, outputDir := output, format := format.map (·.render) }
  | _ => { root := common.root }

/-- The settings that hold for a command are those of the layers, with what it gives on top. -/
theorem settingsOf_eq_resolve (disk : Disk) (environment : Environment) (common : Command.Common)
    (action : Command.Action) :
    Command.settingsOf disk environment common action =
      resolve disk environment (common.config.map FilePath.ofText)
        (Overrides.ofCommand common action).layer.fields := by
  have hgiven : Command.givenSettings common action =
      (Overrides.ofCommand common action).layer.fields := by
    obtain ⟨root, -⟩ := common
    cases action with
    | build output format versions strict =>
      cases root <;> cases output <;> cases format <;> rfl
    | _ => cases root <;> rfl
  rw [Command.settingsOf, hgiven]

/-- The value that a variable of the environment gives to a setting. -/
def fromVariable? (environment : Environment) (name setting : String) : Option Value :=
  ((environment.lookup name).filter (· ≠ "")).bind fun text =>
    (variableValue name setting text).toOption

/-- The environment as a layer. -/
def environmentLayer (environment : Environment) : Layer :=
  variableNames.map fun p => (p.2, fromVariable? environment p.1 p.2)

/-- The value that the layers over the project file give to a setting. -/
def above? (overrides : Overrides) (environment : Environment) (name : String) : Option Value :=
  (overrides.layer.value? name).or ((environmentLayer environment).value? name)

/-- The value of a setting in the highest layer that gives it. -/
def effective? (overrides : Overrides) (environment : Environment) (project : Fields)
    (name : String) : Option Value :=
  (above? overrides environment name).or (Fields.get? name project)

theorem nodup_environmentLayer (environment : Environment) :
    ((environmentLayer environment).map Prod.fst).Nodup := by
  change (variableNames.map Prod.snd).Nodup
  decide

theorem nodup_overrides (overrides : Overrides) : (overrides.layer.map Prod.fst).Nodup := by
  change ["root", "output_dir", "output_format", "draft_only"].Nodup
  decide

theorem entriesFrom_eq_ok {environment : Environment} {p : String × String} {new : Fields}
    (h : entriesFrom environment p = .ok new) :
    new = ((fromVariable? environment p.1 p.2).map (Value.str p.2, ·)).toList := by
  rw [entriesFrom] at h
  rw [fromVariable?]
  cases hlookup : environment.lookup p.1 with
  | none =>
    rw [hlookup] at h
    exact (Except.ok.inj h).symm
  | some text =>
    rw [hlookup] at h
    dsimp only at h
    split at h
    · next hempty =>
      rw [Option.filter_some_neg (by simpa using hempty)]
      exact (Except.ok.inj h).symm
    · next hnonempty =>
      obtain ⟨v, hv, rfl⟩ := map_eq_ok.mp h
      rw [Option.filter_some_pos (by simpa using hnonempty), Option.bind_some, hv]
      rfl

theorem flatten_of_mapM_entriesFrom {environment : Environment} {names : List (String × String)}
    {news : List Fields} (h : names.mapM (entriesFrom environment) = .ok news) :
    news.flatten = Layer.fields (names.map fun p => (p.2, fromVariable? environment p.1 p.2)) := by
  induction names generalizing news with
  | nil =>
    obtain rfl := Except.ok.inj h
    rfl
  | cons p names ih =>
    rw [List.mapM_cons] at h
    obtain ⟨new, hnew, h⟩ := bind_eq_ok.mp h
    obtain ⟨rest, hrest, h⟩ := bind_eq_ok.mp h
    obtain rfl := Except.ok.inj h
    rw [List.flatten_cons, ih hrest, entriesFrom_eq_ok hnew, List.map_cons]
    cases hvalue : fromVariable? environment p.1 p.2 with
    | none => simp [Layer.fields]
    | some v => simp [Layer.fields]

/-- The environment gives the entries of its layer. -/
theorem environmentFields_eq_ok {environment : Environment} {given : Fields}
    (h : environmentFields environment = .ok given) :
    given = (environmentLayer environment).fields := by
  obtain ⟨news, hnews, rfl⟩ := map_eq_ok.mp h
  exact flatten_of_mapM_entriesFrom hnews

/-- The layers written over one another. -/
def layered (overrides : Overrides) (environment : Environment) (project : Fields) : Fields :=
  Entries.putAll overrides.layer.fields
    (Entries.putAll (environmentLayer environment).fields project)

/-- In the layers written over one another each setting has its effective value. -/
theorem get?_layered (overrides : Overrides) (environment : Environment) (project : Fields)
    (name : String) :
    Fields.get? name (layered overrides environment project) =
      effective? overrides environment project name := by
  have hgiven := Layer.nodup_keys_fields (nodup_overrides overrides)
  have hvariables := Layer.nodup_keys_fields (nodup_environmentLayer environment)
  rw [layered, Fields.get?, Entries.get?_putAll_of_nodup _ hgiven,
    Entries.get?_putAll_of_nodup _ hvariables]
  change (Fields.get? name _).or ((Fields.get? name _).or (Fields.get? name project)) = _
  rw [Layer.get?_fields (nodup_overrides overrides),
    Layer.get?_fields (nodup_environmentLayer environment), effective?, above?, Option.or_assoc]

theorem get?_layered_eq (overrides : Overrides) (environment : Environment) (project : Fields) :
    (Fields.get? · (layered overrides environment project)) =
      effective? overrides environment project :=
  funext (get?_layered overrides environment project)

/-! ## Reading the settings -/

/-- A setting is what is read of the value of its name, or the usual one where there is none. -/
def Holds {α : Type} (values : String → Option Value) (name : String)
    (read : String → Value → Read α) (usual a : α) : Prop :=
  match values name with
  | some v => read name v = .ok a
  | none => a = usual

/-- The seven settings are those of the values, and the usual ones where there is none. -/
structure HasValues (values : String → Option Value) (s : Settings) : Prop where
  root : Holds values "root" readPath ({} : Settings).root s.root
  base : ∃ text, Holds values "prefix" readText defaultBase text ∧ s.base = trimBase text
  draftOnly : Holds values "draft_only" readFlag true s.draftOnly
  outputDir : Holds values "output_dir" readPath ({} : Settings).outputDir s.outputDir
  format : Holds values "output_format" readFormat .json s.format
  legacyPrefixes : Holds values "legacy_prefixes" readTexts [] s.legacyPrefixes
  exclusions :
    Holds values "validation_exclusions" readTexts Document.defaultExclusions s.exclusions

/-- The value of one of the seven settings is refused. -/
inductive Refused (values : String → Option Value) : Prop where
  | path {name : String} {v : Value} (hname : name ∈ ["root", "output_dir"])
      (hv : values name = some v) (hread : ¬ Succeeds (readPath name v)) : Refused values
  | base {v : Value} (hv : values "prefix" = some v) (hread : ¬ Succeeds (readText "prefix" v)) :
      Refused values
  | draftOnly {v : Value} (hv : values "draft_only" = some v)
      (hread : ¬ Succeeds (readFlag "draft_only" v)) : Refused values
  | format {v : Value} (hv : values "output_format" = some v)
      (hread : ¬ Succeeds (readFormat "output_format" v)) : Refused values
  | texts {name : String} {v : Value} (hname : name ∈ ["legacy_prefixes", "validation_exclusions"])
      (hv : values name = some v) (hread : ¬ Succeeds (readTexts name v)) : Refused values

section

variable {α : Type} {values : String → Option Value} {name : String}
  {read : String → Value → Read α} {usual a : α} {fields : Fields}

theorem Holds.succeeds {v : Value} (h : Holds values name read usual a)
    (hv : values name = some v) :
    Succeeds (read name v) := by
  rw [Holds, hv] at h
  exact ⟨a, h⟩

theorem exists_holds (read : String → Value → Read α) (usual : α)
    (h : ∀ v, values name = some v → Succeeds (read name v)) :
    ∃ a, Holds values name read usual a := by
  simp only [Holds]
  cases hv : values name with
  | none => exact ⟨usual, rfl⟩
  | some v => exact h v hv

theorem readField_eq_ok :
    readField name read usual fields = .ok a ↔ Holds (Fields.get? · fields) name read usual a := by
  rw [readField, Holds]
  cases Fields.get? name fields with
  | none => simp [eq_comm]
  | some v => rfl

end

/-- Values give settings unless one of the seven is refused. -/
theorem exists_hasValues_iff {values : String → Option Value} :
    (∃ s, HasValues values s) ↔ ¬ Refused values := by
  constructor
  · rintro ⟨s, h⟩ hrefused
    obtain ⟨text, htext, -⟩ := h.base
    cases hrefused with
    | path hname hv hread =>
      rcases List.mem_cons.mp hname with rfl | hname
      · exact hread (h.root.succeeds hv)
      · obtain rfl := List.mem_singleton.mp hname
        exact hread (h.outputDir.succeeds hv)
    | base hv hread => exact hread (htext.succeeds hv)
    | draftOnly hv hread => exact hread (h.draftOnly.succeeds hv)
    | format hv hread => exact hread (h.format.succeeds hv)
    | texts hname hv hread =>
      rcases List.mem_cons.mp hname with rfl | hname
      · exact hread (h.legacyPrefixes.succeeds hv)
      · obtain rfl := List.mem_singleton.mp hname
        exact hread (h.exclusions.succeeds hv)
  · intro hnone
    -- each setting has a value that is not refused, or none
    have hread {α : Type} (name : String) (read : String → Value → Read α) (usual : α)
        (hrefused : ∀ v, values name = some v → ¬ Succeeds (read name v) → Refused values) :
        ∃ a, Holds values name read usual a :=
      exists_holds read usual fun v hv => by_contra fun hfails => hnone (hrefused v hv hfails)
    obtain ⟨root, hroot⟩ := hread "root" readPath ({} : Settings).root
      fun v hv => .path (by decide) hv
    obtain ⟨text, htext⟩ := hread "prefix" readText defaultBase fun v hv => .base hv
    obtain ⟨draftOnly, hdraft⟩ := hread "draft_only" readFlag true fun v hv => .draftOnly hv
    obtain ⟨outputDir, hout⟩ := hread "output_dir" readPath ({} : Settings).outputDir
      fun v hv => .path (by decide) hv
    obtain ⟨format, hformat⟩ := hread "output_format" readFormat .json fun v hv => .format hv
    obtain ⟨legacyPrefixes, hlegacy⟩ := hread "legacy_prefixes" readTexts []
      fun v hv => .texts (by decide) hv
    obtain ⟨exclusions, hexclusions⟩ := hread "validation_exclusions" readTexts
      Document.defaultExclusions fun v hv => .texts (by decide) hv
    exact ⟨⟨root, trimBase text, draftOnly, outputDir, format, legacyPrefixes, exclusions⟩,
      hroot, ⟨text, htext, rfl⟩, hdraft, hout, hformat, hlegacy, hexclusions⟩

/-- The settings of a mapping are those of its values. -/
theorem ofFields_eq_ok {fields : Fields} {s : Settings} :
    ofFields fields = .ok s ↔ HasValues (Fields.get? · fields) s := by
  constructor
  · intro h
    rw [ofFields] at h
    dsimp only at h
    split at h
    · next hroot hbase hdraft hout hformat hlegacy hexclusions =>
      obtain rfl := Except.ok.inj h
      exact ⟨readField_eq_ok.mp hroot, ⟨_, readField_eq_ok.mp hbase, rfl⟩,
        readField_eq_ok.mp hdraft, readField_eq_ok.mp hout, readField_eq_ok.mp hformat,
        readField_eq_ok.mp hlegacy, readField_eq_ok.mp hexclusions⟩
    · cases h
  · rintro ⟨hroot, ⟨text, htext, hbase⟩, hdraft, hout, hformat, hlegacy, hexclusions⟩
    rw [← readField_eq_ok] at hroot htext hdraft hout hformat hlegacy hexclusions
    rw [ofFields]
    simp only [hroot, htext, hdraft, hout, hformat, hlegacy, hexclusions]
    rw [← hbase]

/-- Settings are read of a mapping unless the value of one is refused. -/
theorem succeeds_ofFields {fields : Fields} :
    Succeeds (ofFields fields) ↔ ¬ Refused (Fields.get? · fields) :=
  (exists_congr fun _ => ofFields_eq_ok).trans exists_hasValues_iff

/-- The names of the settings. -/
def names : List String :=
  ["root", "prefix", "draft_only", "output_dir", "output_format", "legacy_prefixes",
    "validation_exclusions"]

/-- What is read of a mapping, and what of it is refused, depends on the values of the seven names.
-/
theorem ofFields_congr {fields fields' : Fields}
    (h : ∀ name ∈ names, Fields.get? name fields' = Fields.get? name fields) :
    ofFields fields' = ofFields fields := by
  have hread {α : Type} (name : String) (read : String → Value → Read α) (usual : α)
      (hname : name ∈ names) :
      readField name read usual fields' = readField name read usual fields := by
    rw [readField, readField, h name hname]
  rw [ofFields, ofFields]
  simp only [hread "root" _ _ (by decide), hread "prefix" _ _ (by decide),
    hread "draft_only" _ _ (by decide), hread "output_dir" _ _ (by decide),
    hread "output_format" _ _ (by decide), hread "legacy_prefixes" _ _ (by decide),
    hread "validation_exclusions" _ _ (by decide)]

/-! ## All layers -/

/-- What makes the settings of a run wrong: the project file, the flag of the environment, or the
value of a setting in the highest layer that gives it. -/
inductive Invalid (disk : Disk) (environment : Environment) (path? : Option FilePath)
    (overrides : Overrides) : Prop where
  | project (h : IsBroken disk path?) : Invalid disk environment path? overrides
  | flag {text : String} (h : IsBadFlag environment "SPECSMITH_DRAFT_ONLY" text) :
      Invalid disk environment path? overrides
  | value {project : Fields} (hproject : IsProject disk path? project)
      (h : Refused (effective? overrides environment project)) :
      Invalid disk environment path? overrides

section

variable {disk : Disk} {environment : Environment} {path? : Option FilePath} {overrides : Overrides}
  {project : Fields} {s : Settings}

theorem resolve_of_isProject (h : IsProject disk path? project) :
    resolve disk environment path? overrides.layer.fields =
      (environmentFields environment).bind fun given =>
        (ofFields (Entries.putAll overrides.layer.fields (Entries.putAll given project))).mapError
          Fault.badSettings := by
  obtain ⟨project?, hload, rfl⟩ := loadProject_of_isProject h
  rw [resolve, hload, ok_bind]
  dsimp only
  rw [overlay_eq]
  cases environmentFields environment <;> rfl

/-- With a project file and a word for the flag, the settings are those of the layers. -/
theorem resolve_eq_layered (h : IsProject disk path? project)
    (hflag : ∀ text, ¬ IsBadFlag environment "SPECSMITH_DRAFT_ONLY" text) :
    resolve disk environment path? overrides.layer.fields =
      (ofFields (layered overrides environment project)).mapError Fault.badSettings := by
  rw [resolve_of_isProject h]
  cases hgiven : environmentFields environment with
  | error fault =>
    obtain ⟨text, hbad, -⟩ := environmentFields_eq_error_iff.mp hgiven
    exact absurd hbad (hflag text)
  | ok given =>
    obtain rfl := environmentFields_eq_ok hgiven
    rfl

theorem resolve_of_isBadFlag {text : String} (h : IsProject disk path? project)
    (hflag : IsBadFlag environment "SPECSMITH_DRAFT_ONLY" text) :
    resolve disk environment path? overrides.layer.fields =
      .error (.badFlag "SPECSMITH_DRAFT_ONLY" text) := by
  rw [resolve_of_isProject h, environmentFields_eq_error_iff.mpr ⟨text, hflag, rfl⟩]
  rfl

/-- The settings that are found are those of the effective values, and nothing is wrong then. -/
theorem hasValues_of_resolve (h : resolve disk environment path? overrides.layer.fields = .ok s) :
    ¬ Invalid disk environment path? overrides ∧
      ∃ project, IsProject disk path? project ∧
        HasValues (effective? overrides environment project) s := by
  -- the project file was read
  obtain ⟨project, hproject⟩ : ∃ project, IsProject disk path? project := by
    obtain ⟨project?, hload, -⟩ := bind_eq_ok.mp h
    have hloads := loads_loadProject disk path?
    rw [hload] at hloads
    cases hloads with
    | found hproject => exact ⟨_, hproject⟩
  have hflag : ∀ text, ¬ IsBadFlag environment "SPECSMITH_DRAFT_ONLY" text := by
    intro text hbad
    cases h.symm.trans (resolve_of_isBadFlag hproject hbad)
  have hvalues : HasValues (effective? overrides environment project) s := by
    rw [resolve_eq_layered hproject hflag, mapError_eq_ok, ofFields_eq_ok, get?_layered_eq] at h
    exact h
  refine ⟨fun hinvalid => ?_, project, hproject, hvalues⟩
  cases hinvalid with
  | project hbroken =>
    obtain ⟨fault, hload, -⟩ := loadProject_of_isBroken hbroken
    obtain ⟨project?, hload', -⟩ := loadProject_of_isProject hproject
    cases hload.symm.trans hload'
  | flag hbad => exact hflag _ hbad
  | value hproject' hrefused =>
    obtain rfl := hproject.unique hproject'
    exact exists_hasValues_iff.mp ⟨s, hvalues⟩ hrefused

/-- Where nothing is wrong the settings of the effective values are found. -/
theorem resolve_of_hasValues (hvalid : ¬ Invalid disk environment path? overrides)
    (hproject : IsProject disk path? project)
    (hvalues : HasValues (effective? overrides environment project) s) :
    resolve disk environment path? overrides.layer.fields = .ok s := by
  rw [resolve_eq_layered hproject fun text hbad => hvalid (.flag hbad), mapError_eq_ok,
    ofFields_eq_ok, get?_layered_eq]
  exact hvalues

/-- The user is told of a wrong configuration where something is wrong with it. -/
theorem invalid_of_isConfig {fault : Fault}
    (h : resolve disk environment path? overrides.layer.fields = .error fault)
    (hfault : fault.IsConfig) : Invalid disk environment path? overrides := by
  -- were nothing wrong, settings would be found of any project file that has a mapping
  by_contra hvalid
  have hloads := loads_loadProject disk path?
  cases hload : loadProject disk path? with
  | ok project? =>
    rw [hload] at hloads
    cases hloads with
    | found hproject =>
      obtain ⟨s, hvalues⟩ := exists_hasValues_iff.mpr fun hrefused =>
        hvalid (.value hproject hrefused)
      cases h.symm.trans (resolve_of_hasValues hvalid hproject hvalues)
  | error fault' =>
    rw [hload] at hloads
    cases hloads with
    | broken hbroken => exact hvalid (.project hbroken)
    | failed hfails =>
      rw [resolve_eq_failed_iff.mpr hfails] at h
      obtain rfl := Except.error.inj h
      obtain ⟨report, hreport, -⟩ := hfault
      cases hreport

/-- Where the project file fails, only the flag of the environment can be wrong besides. -/
theorem exists_isBadFlag_of_invalid {f : Failure}
    (hfails : ProjectFails disk (projectPath disk path?) f)
    (h : Invalid disk environment path? overrides) :
    ∃ text, IsBadFlag environment "SPECSMITH_DRAFT_ONLY" text := by
  have hload := loadProject_of_projectFails hfails
  cases h with
  | project hbroken =>
    obtain ⟨fault, hload', report, hreport, -⟩ := loadProject_of_isBroken hbroken
    obtain rfl := Except.error.inj (hload.symm.trans hload')
    cases hreport
  | flag hbad => exact ⟨_, hbad⟩
  | value hproject =>
    obtain ⟨project?, hload', -⟩ := loadProject_of_isProject hproject
    cases hload.symm.trans hload'

/-- Values of the project file that a higher layer hides, and those that are no settings, do not
matter. -/
theorem resolve_congr {disk' : Disk} {path?' : Option FilePath} {project' : Fields}
    (h : IsProject disk path? project) (h' : IsProject disk' path?' project')
    (hsame : ∀ name ∈ names, above? overrides environment name = none →
      Fields.get? name project' = Fields.get? name project) :
    resolve disk' environment path?' overrides.layer.fields =
      resolve disk environment path? overrides.layer.fields := by
  by_cases hflag : ∃ text, IsBadFlag environment "SPECSMITH_DRAFT_ONLY" text
  · obtain ⟨text, hbad⟩ := hflag
    rw [resolve_of_isBadFlag h hbad, resolve_of_isBadFlag h' hbad]
  · rw [not_exists] at hflag
    rw [resolve_eq_layered h hflag, resolve_eq_layered h' hflag]
    refine congrArg _ (ofFields_congr fun name hname => ?_)
    rw [get?_layered, get?_layered, effective?, effective?]
    cases habove : above? overrides environment name with
    | some v => rfl
    | none => rw [hsame name hname habove]

end

/-- Settings are found exactly if nothing is wrong, and then each is the value of the highest layer
that gives it; the user is told of a wrong configuration exactly if something is wrong, unless the
project file fails. What a higher layer hides in the project file, and what is no setting there,
does not matter. -/
theorem resolve_of_layers (disk : Disk) (environment : Environment) (path? : Option FilePath)
    (overrides : Overrides) :
    let r := resolve disk environment path? overrides.layer.fields
    (∀ s, r = .ok s ↔ ¬ Invalid disk environment path? overrides ∧
      ∃ project, IsProject disk path? project ∧
        HasValues (effective? overrides environment project) s) ∧
    ((∀ f, ¬ ProjectFails disk (projectPath disk path?) f) →
      IsTold r ∧
        ((∃ fault, r = .error fault ∧ fault.IsConfig) ↔ Invalid disk environment path? overrides)) ∧
    ∀ disk' path?' project project', IsProject disk path? project →
      IsProject disk' path?' project' →
      (∀ name ∈ names, above? overrides environment name = none →
        Fields.get? name project' = Fields.get? name project) →
      resolve disk' environment path?' overrides.layer.fields = r := by
  intro r
  refine ⟨fun s => ⟨hasValues_of_resolve, ?_⟩, fun hproject => ?_, ?_⟩
  · rintro ⟨hvalid, project, hproject, hvalues⟩
    exact resolve_of_hasValues hvalid hproject hvalues
  · have htold : IsTold r := isTold_resolve_iff.mpr hproject
    refine ⟨htold, ?_, fun hinvalid => ?_⟩
    · rintro ⟨fault, hfault, hconfig⟩
      exact invalid_of_isConfig hfault hconfig
    · exact htold.resolve_left fun ⟨s, hs⟩ => (hasValues_of_resolve hs).1 hinvalid
  · intro disk' path?' project project' h h' hsame
    exact resolve_congr h h' hsame

/-- A project file with values that are hidden and one that is no setting. -/
def hiddenText : String :=
  "\x7b\"output_format\": \"toml\", \"draft_only\": 7, \"note\": [1]\x7d"

/-- The environment and the command line hide what the project file has wrong. -/
theorem resolve_of_layers_hidden :
    let disk := projectDisk hiddenText.toUTF8
    let environment := [("SPECSMITH_FORMAT", "yaml"), ("SPECSMITH_DRAFT_ONLY", " Off ")]
    let overrides : Overrides := { root := some "spec" }
    let r := resolve disk environment none overrides.layer.fields
    r = .ok { root := FilePath.ofText "spec", draftOnly := false, format := .yaml } ∧
      ¬ Invalid disk environment none overrides ∧
      resolve (projectDisk "\x7b\x7d".toUTF8) environment none overrides.layer.fields = r := by
  intro disk environment overrides r
  obtain ⟨hok, htold, hsame⟩ := resolve_of_layers disk environment none overrides
  let project : Fields :=
    [(.str "output_format", .str "toml"), (.str "draft_only", .int 7), (.str "note", .seq [.int 1])]
  have hjson : Json.readText hiddenText.toList = .ok (.map project) := by decide +kernel
  have hproject : IsProject disk none project := .object (hasText_projectDisk _) hjson
  have hempty : IsProject (projectDisk "\x7b\x7d".toUTF8) none [] :=
    .object (hasText_projectDisk _) (by decide +kernel)
  have hresolved :
      r = .ok { root := FilePath.ofText "spec", draftOnly := false, format := .yaml } := by
    rw [show r = _ from resolve_of_isProject hproject]
    decide +kernel
  refine ⟨hresolved, fun hinvalid => ?_,
    hsame _ none project [] hproject hempty (by decide +kernel)⟩
  have hfails := not_projectFails_of_hasShortRuns (hasText_projectDisk hiddenText)
    (Json.hasShortRuns_of_length (by decide +kernel))
  obtain ⟨fault, hfault, -⟩ := (htold hfails).2.mpr hinvalid
  cases hresolved.symm.trans hfault

/-- A project file with an integer of 4301 digits. -/
def longNote : String :=
  String.ofList ("\x7b\"note\": ".toList ++ '1' :: (List.replicate 4300 '1' ++ ['\x7d']))

theorem readText_longNote : Json.readText longNote.toList = .error .longInteger := by
  have hlist : longNote.toList =
      "\x7b\"note\": ".toList ++ '1' :: (List.replicate 4300 '1' ++ ['\x7d']) :=
    String.toList_ofList
  have hlong : Text.maxDigits ≤ 4300 := le_refl 4300
  exact (congrArg Json.readText hlist).trans (Json.readText_of_ones hlong)

/-- An integer with too many digits ends the run without a message of its own, also where it is no
setting. -/
theorem not_isTold_of_longNote :
    let disk := projectDisk longNote.toUTF8
    HasText disk (projectPath disk none) longNote ∧
      resolve disk [] none ({} : Overrides).layer.fields = .error (.failed .badValue) ∧
      ¬ IsTold (resolve disk [] none ({} : Overrides).layer.fields) ∧
      ¬ Invalid disk [] none {} := by
  intro disk
  have htext : HasText disk (projectPath disk none) longNote := hasText_projectDisk _
  have hfails : ProjectFails disk (projectPath disk none) .badValue :=
    .integer htext readText_longNote
  refine ⟨htext, resolve_eq_failed_iff.mpr hfails,
    fun htold => isTold_resolve_iff.mp htold _ hfails, fun hinvalid => ?_⟩
  obtain ⟨text, hbad⟩ := exists_isBadFlag_of_invalid hfails hinvalid
  cases hbad.lookup

end ApiTree.Settings
