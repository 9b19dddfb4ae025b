import ApiTree.Settings.Resolve

/-!
# The shared catalog

Beside the catalog of a session there may be one that is shared by everything that does not name a
catalog of its own. It can be the one of the session; where none was named it is made from the settings
when it is first needed.
-/

set_option autoImplicit false

namespace ApiTree

/-- The catalog that is shared. -/
inductive SharedCatalog where
  /-- None is named yet. -/
  | unnamed
  /-- The catalog of the session. -/
  | own
  | other (catalog : Catalog)
  deriving Inhabited

namespace SharedCatalog

/-- The shared catalog as it is used: it is made from the settings if there is none. -/
def acquire (shared : SharedCatalog) (disk : Disk) (environment : Environment) :
    Except Fault SharedCatalog :=
  match shared with
  | .unnamed => do return .other (← Settings.resolve disk environment none []).catalog
  | shared => .ok shared

/-- The catalog, where `own` is the one of the session. -/
def catalog (shared : SharedCatalog) (own : Catalog) : Catalog :=
  match shared with
  | .other c => c
  | _ => own

/-- Run a step on the shared catalog. What it remembers stays with that catalog. -/
def run {α : Type} (shared : SharedCatalog) (step : Run α) (s : Session) :
    Except Fault α × Session × SharedCatalog :=
  match shared with
  | .other c =>
    let (result, t) := step.run.run { s with catalog := c }
    (result, { t with catalog := s.catalog }, .other t.catalog)
  | shared =>
    let (result, t) := step.run.run s
    (result, t, shared)

end SharedCatalog
end ApiTree
