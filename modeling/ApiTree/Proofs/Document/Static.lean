import ApiTree.Proofs.Catalog.History

/-!
# Static parts are merged files

The violations of a compiled document are told and change nothing else: the static part of a version
is what its files contribute, merged, under the entry that names the version.
-/

set_option autoImplicit false

namespace ApiTree

open Document

theorem exec_forIn_yield {α σ : Type} (as : List α) (step : α → ExceptT Fault (StateM σ) Unit)
    (hstep : ∀ a s, (exec (step a) s).1 = .ok ()) (s : σ) :
    (exec (forIn as PUnit.unit fun a _ => do
      step a
      return ForInStep.yield PUnit.unit) s).1 = .ok PUnit.unit := by
  induction as generalizing s with
  | nil => rfl
  | cons a as ih =>
    rcases hexec : exec (step a) s with ⟨r, t⟩
    obtain rfl : r = .ok () := by rw [← hstep a s, hexec]
    rw [List.forIn_cons, exec_bind_of_ok (exec_bind_of_ok hexec _)]
    exact ih t

/-- Violations do not prevent a document from being compiled. -/
theorem collect_compile (disk : Disk) (root : FilePath) (base : String)
    (exclusions paths : List String) :
    (compile disk root base exclusions paths).collect.1 =
      (mergeFiles disk root base paths).collect.1.map fun document =>
        ⟨withoutNotes document,
          validate (.map (completed (withoutNotes document))) exclusions⟩ := by
  rw [collect_eq_exec, collect_eq_exec, compile, exec_bind]
  rcases exec (mergeFiles disk root base paths) [] with ⟨fault | document, lines⟩
  · rfl
  · have htold := exec_forIn_yield
      (validate (.map (completed (withoutNotes document))) exclusions)
      (fun violation => Logged.log .warning compilerName ("OpenAPI violation: " ++ violation))
      (fun _ _ => rfl) lines
    rcases hexec : exec _ lines with ⟨r, t⟩
    rw [hexec] at htold
    simp only at htold
    rw [htold] at hexec
    exact congrArg Prod.fst (exec_bind_of_ok hexec _)

/-- The static part of a version is what its files contribute, and the version. -/
theorem Catalog.readStatic_eq (c : Catalog) (d : Disk) (version : String) :
    c.readStatic d version =
      (mergeFiles d c.root c.base
          ((StaticPart.files d c.root version).map (·.render))).collect.1.map
        fun document => Value.mergeEntries [("info", .single "version" (.str version))]
          (withoutNotes document) := by
  have hcompile := collect_compile d c.root c.base c.staticExclusions
    ((StaticPart.files d c.root version).map (·.render))
  rw [collect_eq_exec] at hcompile
  rw [readStatic, collect_eq_exec, StaticPart.document, exec_bind]
  rcases hexec : exec (compile d c.root c.base c.staticExclusions
    ((StaticPart.files d c.root version).map (·.render))) [] with ⟨r, lines⟩
  rw [hexec] at hcompile
  simp only at hcompile
  rw [hexec, hcompile]
  cases (mergeFiles d c.root c.base
    ((StaticPart.files d c.root version).map (·.render))).collect.1 <;> rfl

end ApiTree
