import ApiTree.Proofs.Disk.Relocation
import ApiTree.Proofs.Document.Compile

/-!
# Two runs below two roots

The same computation below two roots tells the same and ends with the same result, up to the names of
the roots in what it tells and in what its faults tell. This is a relation between two runs that each
way of putting steps together keeps (`InStep`), and the readings of two trees that hold the same files
are related by it.
-/

set_option autoImplicit false

namespace ApiTree

variable (root root' : FilePath)

/-! ## Up to the names of the roots -/

/-- The texts write the paths below the two roots to which the same names lead. -/
def SamePath (s s' : String) : Prop :=
  ∃ names, s = (root.under names).render ∧ s' = (root'.under names).render

/-- The texts are equal, or are so but for such paths in them. -/
inductive SameText : String → String → Prop
  | same (text : String) : SameText text text
  | moved (before after : String) {s s' : String} (h : SamePath root root' s s') :
    SameText (before ++ s ++ after) (before ++ s' ++ after)

/-- The faults are equal, or are so but for such paths. -/
inductive SameFault : Fault → Fault → Prop
  | same (fault : Fault) : SameFault fault fault
  | badReference {s s' : String} (h : SamePath root root' s s') :
    SameFault (.badReference s) (.badReference s')
  | badYaml {s s' : String} (h : SamePath root root' s s') (dump : String) :
    SameFault (.badYaml s dump) (.badYaml s' dump)
  | notMapping {s s' : String} (h : SamePath root root' s s') :
    SameFault (.notMapping s) (.notMapping s')
  | noVersions {s s' : String} (h : SamePath root root' s s') :
    SameFault (.noVersions s) (.noVersions s')

/-- The lines of the log are equal but for such paths in their texts. -/
structure SameLine (l l' : LogLine) : Prop where
  level : l.level = l'.level
  source : l.source = l'.source
  text : SameText root root' l.text l'.text

/-- The results are related values or such faults. -/
inductive SameResult {α β : Type} (V : α → β → Prop) : Except Fault α → Except Fault β → Prop
  | ok {a : α} {b : β} (h : V a b) : SameResult V (.ok a) (.ok b)
  | error {f f' : Fault} (h : SameFault root root' f f') : SameResult V (.error f) (.error f')

variable {root root'}

theorem SamePath.roots (root root' : FilePath) : SamePath root root' root.render root'.render :=
  ⟨[], by rw [FilePath.under, List.append_nil], by rw [FilePath.under, List.append_nil]⟩

theorem SameLine.refl (l : LogLine) : SameLine root root' l l := ⟨rfl, rfl, .same l.text⟩

theorem SameResult.refl {α : Type} (r : Except Fault α) : SameResult root root' Eq r r := by
  cases r with
  | ok a => exact .ok rfl
  | error f => exact .error (.same f)

/-- Faults that differ in paths only are reported alike. -/
theorem SameFault.report? {f f' : Fault} (h : SameFault root root' f f') :
    Option.Rel (fun r r' => r.kind = r'.kind ∧ r.exitCode = r'.exitCode ∧
      SameText root root' r.message r'.message) f.report? f'.report? := by
  cases h with
  | same =>
    cases f.report? with
    | none => exact .none
    | some report => exact .some ⟨rfl, rfl, .same _⟩
  | badReference h =>
    refine .some ⟨rfl, rfl, ?_⟩
    simpa using SameText.moved "" ": $ref:'...' should be $ref: '...' (note the space)" h
  | badYaml h dump =>
    refine .some ⟨rfl, rfl, ?_⟩
    simpa using SameText.moved "Invalid YAML in " "" h
  | notMapping h =>
    refine .some ⟨rfl, rfl, ?_⟩
    simpa using SameText.moved "" " missing or empty" h
  | noVersions h =>
    exact .some ⟨rfl, rfl, .moved "No API versions defined under " "; only 'draft' exists" h⟩

/-! ## Runs that keep in step -/

section

variable {σ α β γ δ : Type} (root root')

/-- From related states the two runs give related results and leave related states. -/
def InStep (R : σ → σ → Prop) (V : α → β → Prop) (m : ExceptT Fault (StateM σ) α)
    (m' : ExceptT Fault (StateM σ) β) : Prop :=
  ∀ s s', R s s' →
    SameResult root root' V (exec m s).1 (exec m' s').1 ∧ R (exec m s).2 (exec m' s').2

variable {root root'} {R : σ → σ → Prop} {V : α → β → Prop} {W : γ → δ → Prop}

theorem inStep_pure {a : α} {b : β} (h : V a b) : InStep root root' R V (pure a) (pure b) :=
  fun _ _ hs => ⟨.ok h, hs⟩

theorem inStep_get : InStep root root' R R get get := fun _ _ hs => ⟨.ok hs, hs⟩

theorem inStep_modify {f g : σ → σ} (h : ∀ s s', R s s' → R (f s) (g s')) :
    InStep root root' R Eq (modify f) (modify g) := fun s s' hs => ⟨.ok rfl, h s s' hs⟩

theorem inStep_liftM {r : Except Fault α} {r' : Except Fault β} (h : SameResult root root' V r r') :
    InStep root root' R V (liftM r) (liftM r') := by
  intro s s' hs
  rw [exec_liftM, exec_liftM]
  exact ⟨h, hs⟩

theorem InStep.bind {m : ExceptT Fault (StateM σ) α} {m' : ExceptT Fault (StateM σ) β}
    {f : α → ExceptT Fault (StateM σ) γ} {f' : β → ExceptT Fault (StateM σ) δ}
    (hm : InStep root root' R V m m') (hf : ∀ a b, V a b → InStep root root' R W (f a) (f' b)) :
    InStep root root' R W (m >>= f) (m' >>= f') := by
  intro s s' hs
  have hresult := hm s s' hs
  rw [exec_bind, exec_bind]
  revert hresult
  rcases exec m s with ⟨r, t⟩
  rcases exec m' s' with ⟨r', t'⟩
  rintro ⟨hresult, hstate⟩
  -- the first steps end alike: both go on, from related values, or both stop
  cases hresult with
  | ok h => exact hf _ _ h t t' hstate
  | error h => exact ⟨.error h, hstate⟩

theorem InStep.map {m : ExceptT Fault (StateM σ) α} {m' : ExceptT Fault (StateM σ) β} {f : α → γ}
    {f' : β → δ} (hm : InStep root root' R V m m') (hf : ∀ a b, V a b → W (f a) (f' b)) :
    InStep root root' R W (f <$> m) (f' <$> m') := by
  rw [map_eq_pure_bind, map_eq_pure_bind]
  exact hm.bind fun a b hab => inStep_pure (hf a b hab)

/-- Loops over related lists whose rounds keep in step keep in step. -/
theorem inStep_foldlM {ε ζ : Type} {A : ε → ζ → Prop} {as : List ε} {as' : List ζ}
    {step : α → ε → ExceptT Fault (StateM σ) α} {step' : β → ζ → ExceptT Fault (StateM σ) β}
    (has : List.Forall₂ A as as')
    (hstep : ∀ b b' a a', V b b' → A a a' → InStep root root' R V (step b a) (step' b' a')) {b : α}
    {b' : β} (hb : V b b') :
    InStep root root' R V (as.foldlM step b) (as'.foldlM step' b') := by
  -- the relation of what was collected carries the induction along the two lists
  induction has generalizing b b' with
  | nil => exact inStep_pure hb
  | cons ha _ ih =>
    rw [List.foldlM_cons, List.foldlM_cons]
    exact (hstep b b' _ _ hb ha).bind fun c c' hc => ih hc

theorem inStep_forIn {ε : Type} (as : List ε) {step step' : ε → ExceptT Fault (StateM σ) Unit}
    (hstep : ∀ a, InStep root root' R Eq (step a) (step' a)) :
    InStep root root' R Eq
      (forIn as PUnit.unit fun a _ => do
        step a
        return ForInStep.yield PUnit.unit)
      (forIn as PUnit.unit fun a _ => do
        step' a
        return ForInStep.yield PUnit.unit) := by
  induction as with
  | nil => exact inStep_pure rfl
  | cons a as ih =>
    rw [List.forIn_cons, List.forIn_cons]
    refine InStep.bind (V := Eq) ((hstep a).bind fun _ _ _ => inStep_pure rfl) ?_
    rintro r _ rfl
    cases r with
    | done u => exact inStep_pure rfl
    | yield u => exact ih

end

/-- What two computations that keep in step tell and give when nothing was told before. -/
theorem InStep.collect {α β : Type} {V : α → β → Prop} {m : Logged α} {m' : Logged β}
    (h : InStep root root' (List.Forall₂ (SameLine root root')) V m m') :
    SameResult root root' V m.collect.1 m'.collect.1 ∧
      List.Forall₂ (SameLine root root') m.collect.2 m'.collect.2 := h [] [] .nil

/-! ## Reading counterparts -/

section

variable {d d' : Disk} {p p' : FilePath} {s s' : String}

theorem inStep_lift {α : Type} (r : Except Failure α) :
    InStep root root' (List.Forall₂ (SameLine root root')) Eq (Logged.lift r) (Logged.lift r) := by
  cases r with
  | ok a => exact inStep_pure rfl
  | error f => exact inStep_liftM (.error (.same _))

theorem inStep_log {level : LogLevel} {source text text' : String}
    (h : SameText root root' text text') :
    InStep root root' (List.Forall₂ (SameLine root root')) Eq (Logged.log level source text)
      (Logged.log level source text') := by
  refine inStep_modify fun lines lines' hlines => ?_
  exact List.rel_append hlines (.cons ⟨rfl, rfl, h⟩ .nil)

theorem Counterpart.samePath (h : Counterpart d d' root root' p p') :
    SamePath root root' p.render p'.render := by
  obtain ⟨names, -, -, -, rfl, rfl⟩ := h
  exact ⟨names, rfl, rfl⟩

theorem sameResult_parse (h : SamePath root root' s s') (text : String) :
    SameResult root root' Eq (Fragment.parse s text) (Fragment.parse s' text) := by
  rw [Fragment.parse, Fragment.parse]
  -- the tests look at the text alone, so both readings take the same branch
  split
  · exact .error (.badReference h)
  · split
    · exact .error (.badYaml h _)
    · exact .error (.same _)
    · split
      · exact .error (.same _)
      · split
        · exact .error (.same _)
        · exact .ok rfl
    · exact .error (.notMapping h)

/-- Counterparts hold the same, or cannot be read for the same reason. -/
theorem sameResult_read (hd : d.Sound) (hd' : d'.Sound) (h : Counterpart d d' root root' p p') :
    SameResult root root' Eq (Fragment.read d p) (Fragment.read d' p') := by
  have hpath := h.samePath
  obtain ⟨names, content, ⟨base, hbase, -, hmem⟩, ⟨base', hbase', -, hmem'⟩, rfl, rfl⟩ := h
  have hread : d.read (root.under names) = .ok content := hd.read_eq hbase hmem
  have hread' : d'.read (root'.under names) = .ok content := hd'.read_eq hbase' hmem'
  rw [Fragment.read, Fragment.read, hread, hread']
  simp only
  cases Fragment.decode content with
  | error f => exact .error (.same f)
  | ok text => exact sameResult_parse hpath text

theorem inStep_readLogged (hd : d.Sound) (hd' : d'.Sound) (h : Counterpart d d' root root' p p') :
    InStep root root' (List.Forall₂ (SameLine root root')) Eq (Fragment.readLogged d p)
      (Fragment.readLogged d' p') := by
  have hresult := sameResult_read hd hd' h
  rw [Fragment.readLogged, Fragment.readLogged]
  revert hresult
  generalize Fragment.read d p = r
  generalize Fragment.read d' p' = r'
  intro hresult
  cases hresult with
  | ok h => exact inStep_pure h
  | @error f f' h =>
    have hthrow (_ _ : Unit) (_ : () = ()) := inStep_liftM (σ := List LogLine)
      (R := List.Forall₂ (SameLine root root')) (V := @Eq Fields) (.error h)
    -- a text that is no YAML is logged with its path, and every other fault is silent
    cases h with
    | same =>
      cases f with
      | badYaml path dump => exact InStep.bind (inStep_log (.same _)) hthrow
      | _ => exact hthrow () () rfl
    | badYaml h dump =>
      refine InStep.bind (inStep_log ?_) hthrow
      simpa only [String.append_assoc] using SameText.moved "Failed to parse " (":\n" ++ dump) h
    | _ => exact hthrow () () rfl

/-- Counterparts are loaded as the same fragment but for its source. -/
theorem inStep_load (hd : d.Sound) (hd' : d'.Sound) (hroot : root.IsProper)
    (hroot' : root'.IsProper) (h : Counterpart d d' root root' p p') (base : String) :
    InStep root root' (List.Forall₂ (SameLine root root'))
      (fun f f' => { f with source := f'.source } = f') (Fragment.load d root base p.render)
      (Fragment.load d' root' base p'.render) := by
  have hread := inStep_readLogged hd hd' h
  obtain ⟨names, content, ⟨above, hbase, -, hmem⟩, ⟨above', hbase', -, hmem'⟩, rfl, rfl⟩ := h
  have hproper : (root.under names).IsProper := FilePath.isProper_append hroot fun s hs =>
    (hd.names _ hmem s (List.mem_append_right above hs)).1
  have hproper' : (root'.under names).IsProper := FilePath.isProper_append hroot' fun s hs =>
    (hd'.names _ hmem' s (List.mem_append_right above' hs)).1
  -- once the paths are read back from their texts, the place is the one of the names
  rw [Fragment.load, Fragment.load, FilePath.ofText_render hproper, FilePath.ofText_render hproper',
    Place.ofPath_under root root']
  refine InStep.bind hread ?_
  rintro content _ rfl
  exact inStep_pure rfl

/-! ## Compiling counterparts -/

variable {base : String} {paths paths' : List FilePath}

theorem inStep_contribution (hd : d.Sound) (hd' : d'.Sound) (hroot : root.IsProper)
    (hroot' : root'.IsProper) (h : Counterpart d d' root root' p p') :
    InStep root root' (List.Forall₂ (SameLine root root')) Eq
      (Document.contribution d root base p.render)
      (Document.contribution d' root' base p'.render) := by
  rw [Document.contribution, Document.contribution]
  refine InStep.bind (inStep_log ?_) fun _ _ _ => ?_
  · simpa using SameText.moved "Merging " "" h.samePath
  · refine (inStep_load hd hd' hroot hroot' h base).bind ?_
    rintro f f' hf
    have htransform : f'.transform = f.transform := by rw [← hf]; rfl
    rw [htransform]
    exact inStep_lift _

theorem inStep_compile (hd : d.Sound) (hd' : d'.Sound) (hroot : root.IsProper)
    (hroot' : root'.IsProper) (h : List.Forall₂ (Counterpart d d' root root') paths paths')
    (exclusions : List String) :
    InStep root root' (List.Forall₂ (SameLine root root')) Eq
      (Document.compile d root base exclusions (paths.map (·.render)))
      (Document.compile d' root' base exclusions (paths'.map (·.render))) := by
  rw [Document.compile, Document.compile, Document.mergeFiles, Document.mergeFiles,
    List.foldlM_map, List.foldlM_map]
  refine InStep.bind (V := Eq) (inStep_foldlM h ?_ rfl) ?_
  · rintro document _ p p' rfl hp
    refine (inStep_contribution hd hd' hroot hroot' hp).bind ?_
    rintro data _ rfl
    exact inStep_pure rfl
  · rintro document _ rfl
    refine InStep.bind (inStep_forIn _ fun violation => inStep_log (.same _)) fun _ _ _ => ?_
    exact inStep_pure rfl

/-! ## Reading trees that hold the same files -/

variable (hfiles : SameFiles d d' root root') (hd : d.Sound) (hd' : d'.Sound)
  (hroot : root.IsProper) (hroot' : root'.IsProper)

include hfiles hd hd' hroot hroot'

theorem SameFiles.inStep_static (base : String) (exclusions : List String) (version : String) :
    InStep root root' (List.Forall₂ (SameLine root root')) Eq
      (StaticPart.document d root base exclusions version)
      (StaticPart.document d' root' base exclusions version) := by
  rw [StaticPart.document, StaticPart.document]
  refine (inStep_compile hd hd' hroot hroot'
    (hfiles.staticFiles hd hd' hroot hroot' version) exclusions).bind ?_
  rintro compilation _ rfl
  exact inStep_pure rfl

theorem SameFiles.inStep_table (base : String) :
    InStep root root' (List.Forall₂ (SameLine root root')) Eq (OperationTable.build d root base)
      (OperationTable.build d' root' base) := by
  rw [OperationTable.build, OperationTable.build]
  refine InStep.bind (V := Eq)
    (inStep_foldlM (hfiles.operationFiles hd hd' hroot hroot' base) ?_ rfl) ?_
  · rintro table _ p p' rfl hp
    refine (inStep_load hd hd' hroot hroot' hp base).bind fun f f' hf => ?_
    -- the sources of the fragments have no part in the table
    obtain ⟨source, content, kind, component, operation, version⟩ := f
    rw [← hf]
    cases operation with
    | none => exact inStep_pure rfl
    | some key => exact inStep_pure rfl
  · rintro table _ rfl
    refine InStep.bind (inStep_log ?_) fun _ _ _ => inStep_pure rfl
    simpa only [String.append_empty] using SameText.moved
      ("Indexed " ++ toString table.length ++ " operation(s) under ") "" (.roots root root')

end

end ApiTree
