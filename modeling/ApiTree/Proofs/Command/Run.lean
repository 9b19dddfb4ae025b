import ApiTree.Command.Run
import ApiTree.Proofs.Document.Save

/-!
# Running commands

What a command leaves behind comes from the session in which it was performed with the settings that
hold for it. Only what the command itself says goes to the standard error; reading the tree and
building documents write lines of the log and nothing else.
-/

set_option autoImplicit false

namespace ApiTree

/-- A step whose fault is handled. -/
theorem exec_tryCatch {α : Type} (m : Run α) (handler : Fault → Run α) (s : Session) :
    exec (tryCatch m handler) s =
      match exec m s with
      | (.ok a, t) => (.ok a, t)
      | (.error fault, t) => exec (handler fault) t := by
  unfold exec
  simp only [tryCatch, tryCatchThe, MonadExceptOf.tryCatch, ExceptT.tryCatch, ExceptT.mk,
    ExceptT.run, bind, StateT.bind]
  cases m s with
  | mk r t => cases r <;> rfl

/-! ## What is said -/

/-- The texts for the standard error that are no lines of the log. -/
def Session.diagnostics (s : Session) : List String :=
  s.events.filterMap fun
    | .diagnostic text => some text
    | _ => none

/-- What a session has written to the standard output. -/
def Session.output (s : Session) : String := String.join (s.events.map Command.outputText)

theorem diagnostics_of_diagnostics (s : Session) (texts : List String) :
    ({ s with events := s.events ++ texts.map .diagnostic } : Session).diagnostics =
      s.diagnostics ++ texts := by
  rw [Session.diagnostics, Session.diagnostics, List.filterMap_append, List.filterMap_map]
  simp

/-- Only what is written to the standard output adds to it. -/
theorem output_append {s : Session} {events : List Event}
    (h : ∀ e ∈ events, Command.outputText e = "") :
    ({ s with events := s.events ++ events } : Session).output = s.output := by
  have hnothing : String.join (events.map Command.outputText) = "" := by
    induction events with
    | nil => rfl
    | cons e events ih =>
      rw [List.forall_mem_cons] at h
      rw [List.map_cons, String.join_cons, h.1, ih h.2, String.append_empty]
  rw [Session.output, Session.output, List.map_append, String.join_append, hnothing,
    String.append_empty]

theorem output_of_diagnostics (s : Session) (texts : List String) :
    ({ s with events := s.events ++ texts.map .diagnostic } : Session).output = s.output :=
  output_append (List.forall_mem_map.mpr fun _ _ => rfl)

/-- The step writes lines of the log at most. -/
def OnlyLogs {α : Type} (m : Run α) : Prop :=
  ∀ s, ∃ lines : List LogLine, (exec m s).2.events = s.events ++ lines.map .log

section

variable {α β : Type}

theorem OnlyLogs.diagnostics {m : Run α} (hm : OnlyLogs m) (s : Session) :
    (exec m s).2.diagnostics = s.diagnostics := by
  obtain ⟨lines, hlines⟩ := hm s
  rw [Session.diagnostics, hlines, List.filterMap_append, List.filterMap_map]
  simp [Session.diagnostics]

theorem OnlyLogs.output {m : Run α} (hm : OnlyLogs m) (s : Session) :
    (exec m s).2.output = s.output := by
  obtain ⟨lines, hlines⟩ := hm s
  rw [Session.output, hlines]
  exact output_append (List.forall_mem_map.mpr fun _ _ => rfl)

theorem onlyLogs_pure (a : α) : OnlyLogs (pure a : Run α) := fun _ => ⟨[], by simp [exec_pure]⟩

theorem onlyLogs_catalog : OnlyLogs Run.catalog := fun s => ⟨[], (List.append_nil s.events).symm⟩

theorem onlyLogs_modifyCatalog (f : Catalog → Catalog) : OnlyLogs (Run.modifyCatalog f) :=
  fun s => ⟨[], (List.append_nil s.events).symm⟩

theorem onlyLogs_get : OnlyLogs (get : Run Session) := fun s => ⟨[], (List.append_nil s.events).symm⟩

theorem onlyLogs_ofLogged (m : Logged α) : OnlyLogs (Run.ofLogged m) :=
  fun s => ⟨_, by rw [Run.exec_ofLogged]⟩

theorem OnlyLogs.bind {m : Run α} {f : α → Run β} (hm : OnlyLogs m) (hf : ∀ a, OnlyLogs (f a)) :
    OnlyLogs (m >>= f) := by
  intro s
  obtain ⟨lines, hlines⟩ := hm s
  rw [exec_bind]
  rcases hexec : exec m s with ⟨fault | a, t⟩
  · rw [hexec] at hlines
    exact ⟨lines, hlines⟩
  · rw [hexec] at hlines
    obtain ⟨lines', hlines'⟩ := hf a t
    refine ⟨lines ++ lines', ?_⟩
    simp only
    rw [hlines', show t.events = _ from hlines, List.map_append, List.append_assoc]

theorem onlyLogs_table : OnlyLogs Run.table := by
  refine onlyLogs_get.bind fun s => ?_
  split
  · exact onlyLogs_pure _
  · exact (onlyLogs_ofLogged _).bind fun t =>
      (onlyLogs_modifyCatalog _).bind fun _ => onlyLogs_pure t

theorem onlyLogs_versions : OnlyLogs Run.versions := by
  refine onlyLogs_catalog.bind fun c => ?_
  split
  · exact onlyLogs_pure _
  · exact onlyLogs_table.bind fun t =>
      (onlyLogs_modifyCatalog _).bind fun _ => onlyLogs_pure _

theorem onlyLogs_staticDocument (version : String) : OnlyLogs (Run.staticDocument version) := by
  refine onlyLogs_get.bind fun s => ?_
  split
  · exact onlyLogs_pure _
  · exact (onlyLogs_ofLogged _).bind fun t =>
      (onlyLogs_modifyCatalog _).bind fun _ => onlyLogs_pure t

theorem onlyLogs_build (version : String) (legacyPrefixes : List String) :
    OnlyLogs (Document.build version legacyPrefixes) :=
  (onlyLogs_staticDocument version).bind fun _ => onlyLogs_table.bind fun _ =>
    onlyLogs_catalog.bind fun _ => (onlyLogs_ofLogged _).bind fun _ => onlyLogs_pure _

end

namespace Command

/-! ## The console -/

theorem exec_say (console : Console) (kind : MessageKind) (text : String) (s : Session) :
    exec (console.say kind text) s =
      (.ok (), { s with
        events := s.events ++ (console.message? kind text).toList.map .diagnostic }) := by
  rw [Console.say]
  cases console.message? kind text with
  | none => simp [exec_pure]
  | some text => exact Run.exec_tell _ s

/-- Saying things one after the other. -/
theorem exec_forIn_say {α : Type} (console : Console) (kind : MessageKind) (f : α → String)
    (xs : List α) (s : Session) :
    exec (forIn xs PUnit.unit fun x _ => do
        console.say kind (f x)
        pure (ForInStep.yield PUnit.unit)) s =
      (.ok PUnit.unit, { s with events := s.events ++
        (xs.flatMap fun x => (console.message? kind (f x)).toList).map .diagnostic }) := by
  induction xs generalizing s with
  | nil => simp [exec_pure]
  | cons x xs ih =>
    rw [List.forIn_cons]
    simp only [exec_bind, exec_say, exec_pure]
    refine (ih _).trans ?_
    simp

/-! ## Settings -/

theorem isProper_of_readField {name : String} {usual p : FilePath} {fields : Fields}
    (husual : usual.IsProper) (h : Settings.readField name Settings.readPath usual fields = .ok p) :
    p.IsProper := by
  rw [Settings.readField] at h
  split at h
  · next v hv =>
    cases v with
    | str s =>
      obtain rfl := Except.ok.inj h
      exact FilePath.isProper_ofText s
    | _ => cases h
  · obtain rfl := Except.ok.inj h
    exact husual

/-- The root and the directory of documents are proper paths. -/
theorem isProper_of_settingsOf {disk : Disk} {environment : Environment} {common : Common}
    {action : Action} {settings : Settings}
    (h : settingsOf disk environment common action = .ok settings) :
    settings.root.IsProper ∧ settings.outputDir.IsProper := by
  rw [settingsOf, Settings.resolve] at h
  simp only [bind_eq_ok, mapError_eq_ok] at h
  obtain ⟨project, -, fields, -, hfields⟩ := h
  rw [Settings.ofFields] at hfields
  simp only at hfields
  split at hfields
  · next root base draftOnly outputDir format legacyPrefixes exclusions hroot _ _ hout _ _ _ =>
    obtain rfl := Except.ok.inj hfields
    exact ⟨isProper_of_readField (by decide) hroot, isProper_of_readField (by decide) hout⟩
  · cases hfields

/-- To build with the usual output is to have the settings of any other command. -/
theorem settingsOf_build (disk : Disk) (environment : Environment) (common : Common)
    (versions versions' : List String) (strict : Bool) :
    settingsOf disk environment common (.build none none versions strict) =
      settingsOf disk environment common (.validate versions') := by
  simp [settingsOf, givenSettings]

/-! ## From a command line to a session -/

/-- The session in which a command starts. -/
def startOn (disk : Disk) : Session := { disk, catalog := ({} : Settings).catalog }

/-- What is done for an action once its settings hold. -/
def stepOf (console : Console) (settings : Settings) : Action → Run Unit
  | .build _ _ versions strict => build console settings versions strict
  | .versions => showVersions console
  | .display operation version examples => display settings operation version examples
  | .validate versions => validate console settings versions

/-- A command is its step in a session of the catalog that the settings describe. -/
theorem exec_perform (console : Console) (environment : Environment) (common : Common)
    (action : Action) (disk : Disk) :
    exec (perform console environment common action) (startOn disk) =
      match settingsOf disk environment common action with
      | .ok settings => exec (stepOf console settings action) { disk, catalog := settings.catalog }
      | .error fault => (.error fault, startOn disk) := by
  have hdisk : (startOn disk).disk = disk := rfl
  simp only [perform, exec_bind, exec_get, exec_liftM, Run.exec_modifyCatalog, hdisk]
  cases settingsOf disk environment common action with
  | error fault => rfl
  | ok settings => cases action <;> rfl

/-- The exit code after a command that was performed with the given result. -/
def exitCodeOf : Except Fault Unit → Int
  | .ok _ => 0
  | .error fault => (fault.report?.map FaultReport.exitCode).getD 1

/-- Only a command that was performed without a fault exits with zero. -/
theorem exitCodeOf_eq_zero_iff {result : Except Fault Unit} :
    exitCodeOf result = 0 ↔ result = .ok () := by
  cases result with
  | ok _ => simp [exitCodeOf]
  | error fault => cases fault <;> simp [exitCodeOf, Fault.report?, FaultKind.exitCode]

/-- The console of a command line. -/
def consoleOf (common : Common) (terminal : Bool) (environment : Environment) : Console :=
  Console.make common.format common.noColour common.quiet common.verbose terminal environment

section

variable {args : List String} {common : Common} {action : Action} {environment : Environment}
  {disk : Disk}

/-- The texts that tell why a command has failed. -/
def faultTexts (console : Console) (fault : Fault) : List String :=
  (console.message? .error ((fault.report?.map FaultReport.message).getD "Unexpected error")).toList

theorem exec_execute (console : Console) (s : Session) :
    exec (execute console environment common action) s =
      match exec (perform console environment common action) s with
      | (.ok _, t) => (.ok 0, t)
      | (.error fault, t) => (.ok (exitCodeOf (.error fault)),
          { t with events := t.events ++ (faultTexts console fault).map .diagnostic }) := by
  rw [execute, exec_tryCatch, exec_bind]
  rcases exec (perform console environment common action) s with ⟨fault | _, t⟩
  · simp only [reportFault, exitCodeOf, faultTexts]
    cases fault.report? with
    | none => simp only [exec_bind, exec_say]; rfl
    | some report => simp only [exec_bind, exec_say]; rfl
  · rfl

/-- The exit code of a command that ended with the given result, and with one if it ended
unexpectedly. -/
def finalCode : Except Fault Int → Int
  | .ok code => code
  | .error _ => 1

/-- What a command line leaves is read off the session in which the command was executed. -/
theorem run_eq (hargs : Request.ofArguments args = .perform common action)
    (environment : Environment) (terminal : Bool) (disk : Disk) :
    run args environment terminal disk =
      let u := exec (execute (consoleOf common terminal environment) environment common action)
        (startOn disk)
      ⟨finalCode u.1, u.2.output, String.join (u.2.events.map (diagnosticText common.verbose)),
        u.2.disk⟩ := by
  simp only [run, hargs]
  rfl

/-- A command line leaves the disk and the output of the session in which it was performed, and exits
with the code of the result there. -/
theorem run_of_perform (hargs : Request.ofArguments args = .perform common action)
    (environment : Environment) (terminal : Bool) (disk : Disk) :
    let t := exec (perform (consoleOf common terminal environment) environment common action)
      (startOn disk)
    let outcome := run args environment terminal disk
    outcome.exitCode = exitCodeOf t.1 ∧ outcome.stdout = t.2.output ∧ outcome.disk = t.2.disk := by
  intro t outcome
  rw [show outcome = _ from run_eq hargs environment terminal disk, exec_execute]
  rcases ht : t with ⟨fault | _, u⟩
  · rw [show exec (perform (consoleOf common terminal environment) environment common action)
      (startOn disk) = (.error fault, u) from ht]
    exact ⟨rfl, output_of_diagnostics u _, rfl⟩
  · rw [show exec (perform (consoleOf common terminal environment) environment common action)
      (startOn disk) = (.ok _, u) from ht]
    exact ⟨rfl, rfl, rfl⟩

end

end Command
end ApiTree
