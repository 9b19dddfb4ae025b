import ApiTree.Value.Basic

/-!
# Deep merge

`Value.merge base upper` puts the entries of `upper` on top of those of `base`. Where both hold a
mapping at a key the two are merged; elsewhere the value of `upper` replaces that of `base`, lists
included. Keys keep the place where they stand first.
-/

set_option autoImplicit false

namespace ApiTree.Value

mutual

/-- The value that stands where `base` stood and `upper` is put on top. -/
def merge (base : Option Value) : Value → Value
  | .map upper =>
    match base with
    | some (.map entries) => .map (mergeEntries entries upper)
    | _ => .map upper
  | upper => upper

/-- The entries of `base` with those of the second list on top. -/
def mergeEntries (base : List (Value × Value)) : List (Value × Value) → List (Value × Value)
  | [] => base
  | (k, v) :: upper => mergeEntries (Entries.put k (merge (Entries.get? k base) v) base) upper

end

end ApiTree.Value
