import ApiTree.Proofs.Catalog.Table
import ApiTree.Proofs.Operation.View

/-!
# The context of a view

The view of an operation shows the operation, its version, method and path as they were asked for.
They are written over the fragment at their bare names, so that a fragment that writes the bare name
and, further down, the same name as an extension keeps its own value (`view_of_resolve`). Any other
fragment leaves the context alone.
-/

set_option autoImplicit false

namespace ApiTree

namespace OperationView

/-- The view shows the operation, its method and path, and the version that was asked for. -/
structure HasContext (t : OperationView) (key : OperationKey) (version : Option String) : Prop where
  operation : t.operation = .str key.slug
  httpMethod : t.httpMethod = .str key.method
  path : t.path = .str key.path
  apiVersion : t.apiVersion = .str (versionOrDraft version)

/-- The fragment writes no attribute of the context again after its bare name. -/
def KeepsContext (content : Fields) : Prop :=
  ∀ name ∈ contextNames, content.Pairwise fun e f => e.1 = .str name → plainName f.1 ≠ name

instance (content : Fields) : Decidable (KeepsContext content) :=
  inferInstanceAs (Decidable (∀ name ∈ contextNames, _))

theorem KeepsContext.overriding?_eq_none {content : Fields} (h : KeepsContext content)
    {name : String} (hname : name ∈ contextNames) : overriding? name content = none :=
  (overriding?_eq_none_iff (isPlain_of_mem_contextNames hname)).mpr (h name hname)

/-- What overrides a name is the last of the values that the fragment gives it below the bare name. -/
theorem exists_of_overriding? {name : String} {content : Fields} {v : Value}
    (h : overriding? name content = some v) :
    ∃ before own after key, content = before ++ (.str name, own) :: after ∧
      (entriesNamed name after).getLast? = some (key, v) := by
  induction content with
  | nil => cases h
  | cons e content ih =>
    rw [overriding?] at h
    split at h
    · next hkey =>
      obtain ⟨⟨key, v⟩, hlast, rfl⟩ := Option.map_eq_some_iff.mp h
      exact ⟨[], e.2, content, key, by rw [← hkey]; rfl, hlast⟩
    · obtain ⟨before, own, after, key, rfl, hlast⟩ := ih h
      exact ⟨e :: before, own, after, key, rfl, hlast⟩

variable (content : Fields) (key : OperationKey) (version : Option String)
  (legacyPrefixes : List String)

/-- The context of the view of a fragment, name by name. -/
theorem context_ofFragment :
    let t := ofFragment content key version legacyPrefixes
    t.operation = (overriding? "operation" content).getD (.str key.slug) ∧
      t.httpMethod = (overriding? "http_method" content).getD (.str key.method) ∧
      t.path = (overriding? "path" content).getD (.str key.path) ∧
      t.apiVersion = ((overriding? "api_version" content).getD
        (.ofOption (version.map .str))).orElse (.str draft) := by
  intro t
  refine ⟨?_, ?_, ?_, ?_⟩
  · rw [operation, writtenOrEmpty, get?_ofFragment (by decide) (.head _)]
    rfl
  · rw [httpMethod, writtenOrEmpty, get?_ofFragment (by decide) (.tail _ (.tail _ (.head _)))]
    rfl
  · rw [path, writtenOrEmpty,
      get?_ofFragment (by decide) (.tail _ (.tail _ (.tail _ (.head _))))]
    rfl
  · rw [apiVersion, written, Fields.getD, get?_ofFragment (by decide) (.tail _ (.head _))]
    rfl

/-- Without a version that was asked for, a view shows the draft. -/
theorem orElse_draft :
    (Value.ofOption (version.map .str)).orElse (.str draft) = .str (versionOrDraft version) := by
  cases version with
  | none => rfl
  | some v =>
    by_cases hv : v = ""
    · rw [hv]
      rfl
    · rw [versionOrDraft, if_neg hv]
      simp [Value.ofOption, Value.orElse, Value.isTruthy, hv]

variable {content}

theorem KeepsContext.hasContext (h : KeepsContext content) :
    (ofFragment content key version legacyPrefixes).HasContext key version := by
  obtain ⟨hoperation, hmethod, hpath, hversion⟩ :=
    context_ofFragment content key version legacyPrefixes
  rw [h.overriding?_eq_none (by decide)] at hoperation hmethod hpath hversion
  exact ⟨hoperation, hmethod, hpath, hversion.trans (orElse_draft version)⟩

end OperationView

open OperationView

namespace OperationTable

/-- An operation that is resolved has a view. It shows the context in which the operation was
resolved, if the fragment writes no name of the context again after the bare name. In general a value
that the fragment writes there is shown in place of the value of the context. -/
theorem view_of_resolve {table : OperationTable} {base descriptor : String} {key : OperationKey}
    {version : Option String} {content : Fields}
    (hkey : OperationKey.parse descriptor base = key)
    (hresolve : table.resolve key version = .ok content) (legacyPrefixes : List String) :
    ∃ t, table.view base descriptor version legacyPrefixes = .ok t ∧
      (KeepsContext content → t.HasContext key version) ∧
      t.operation = (overriding? "operation" content).getD (.str key.slug) ∧
      t.httpMethod = (overriding? "http_method" content).getD (.str key.method) ∧
      t.path = (overriding? "path" content).getD (.str key.path) ∧
      t.apiVersion = ((overriding? "api_version" content).map (·.orElse (.str draft))).getD
        (.str (versionOrDraft version)) := by
  refine ⟨ofFragment content key version legacyPrefixes, ?_, fun h => h.hasContext _ _ _, ?_⟩
  · rw [view, hkey, hresolve]
    rfl
  · obtain ⟨hoperation, hmethod, hpath, hversion⟩ :=
      context_ofFragment content key version legacyPrefixes
    refine ⟨hoperation, hmethod, hpath, hversion.trans ?_⟩
    cases overriding? "api_version" content with
    | none => exact orElse_draft version
    | some v => rfl

/-- A table of one operation with the given fragment as its draft. -/
def single (content : Fields) : OperationTable := [(⟨"get", "/api/widgets"⟩, [(draft, content)])]

/-- An extension before the bare name does not count. -/
theorem view_of_resolve_extension :
    let content : Fields := [("x-path", .str "there"), ("path", .str "here"), ("id", .str "A")]
    OperationKey.parse "GET widgets" "/api" = ⟨"get", "/api/widgets"⟩ ∧
      (single content).resolve ⟨"get", "/api/widgets"⟩ none = .ok content ∧
      ∃ t, (single content).view "/api" "GET widgets" none [] = .ok t ∧
        t.HasContext ⟨"get", "/api/widgets"⟩ none ∧ t.path = .str "/api/widgets" := by
  intro content
  have hkey : OperationKey.parse "GET widgets" "/api" = ⟨"get", "/api/widgets"⟩ := by decide
  have hresolve : (single content).resolve ⟨"get", "/api/widgets"⟩ none = .ok content := by rfl
  obtain ⟨t, hview, hkeeps, -⟩ := view_of_resolve hkey hresolve []
  have hcontext := hkeeps (by decide)
  exact ⟨hkey, hresolve, t, hview, hcontext, hcontext.path⟩

/-- A fragment can show another path than the one of its operation. -/
theorem view_of_override :
    let content : Fields := [("path", .str "here"), ("x-path", .str "there")]
    OperationKey.parse "GET widgets" "/api" = ⟨"get", "/api/widgets"⟩ ∧
      (single content).resolve ⟨"get", "/api/widgets"⟩ none = .ok content ∧
      ∃ t, (single content).view "/api" "GET widgets" none [] = .ok t ∧
        t.path = .str "there" ∧ ¬ t.HasContext ⟨"get", "/api/widgets"⟩ none := by
  intro content
  have hkey : OperationKey.parse "GET widgets" "/api" = ⟨"get", "/api/widgets"⟩ := by decide
  have hresolve : (single content).resolve ⟨"get", "/api/widgets"⟩ none = .ok content := by rfl
  have hpath := (context_ofFragment content ⟨"get", "/api/widgets"⟩ none []).2.2.1
  have hother : (overriding? "path" content).getD (.str "/api/widgets") = .str "there" := by decide
  refine ⟨hkey, hresolve, _, by rw [view, hkey, hresolve]; rfl, hpath.trans hother, ?_⟩
  intro hcontext
  have heq := (hpath.trans hother).symm.trans hcontext.path
  rw [Value.str.injEq] at heq
  exact absurd heq (by decide)

end OperationTable
end ApiTree
