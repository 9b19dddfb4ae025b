/-!
# Ordered entries

Lists of key and value pairs read as a mapping that remembers the order in which its keys were first
written. Writing a key that is present changes its value and keeps its place; a new key goes to the
end.
-/

set_option autoImplicit false

namespace ApiTree.Entries

variable {κ α β : Type}

section Same

variable (same : κ → κ → Bool)

/-- The entries after a write, where `same` tells whether two keys are one key. -/
def putBy (k : κ) (v : α) : List (κ × α) → List (κ × α)
  | [] => [(k, v)]
  | (l, w) :: es => if same l k then (l, v) :: es else (l, w) :: putBy k v es

/-- The mapping that results from writing the pairs from left to right. -/
def ofPairsBy (pairs : List (κ × α)) : List (κ × α) :=
  pairs.foldl (fun es e => putBy same e.1 e.2 es) []

end Same

variable [DecidableEq κ]

/-- The value of a key. -/
def get? (k : κ) : List (κ × α) → Option α
  | [] => none
  | (l, w) :: es => if l = k then some w else get? k es

/-- The key is present. -/
def has (k : κ) (es : List (κ × α)) : Bool :=
  (get? k es).isSome

/-- The entries after writing `v` at `k`. -/
def put (k : κ) (v : α) : List (κ × α) → List (κ × α)
  | [] => [(k, v)]
  | (l, w) :: es => if l = k then (l, v) :: es else (l, w) :: put k v es

/-- The entries after writing those of `new` from left to right. -/
def putAll (new es : List (κ × α)) : List (κ × α) :=
  new.foldl (fun acc e => put e.1 e.2 acc) es

/-- The mapping that results from writing the pairs from left to right. -/
def ofPairs (pairs : List (κ × α)) : List (κ × α) :=
  putAll pairs []

/-- The entries after writing `v` at `k` unless the key is present. -/
def putNew (k : κ) (v : α) (es : List (κ × α)) : List (κ × α) :=
  if has k es then es else put k v es

/-- The entries without a key. -/
def erase (k : κ) : List (κ × α) → List (κ × α)
  | [] => []
  | (l, w) :: es => if l = k then es else (l, w) :: erase k es

/-- The keys in order. -/
def keys (es : List (κ × α)) : List κ :=
  es.map Prod.fst

/-- The entries of the given keys that are present, in the order of `ks`. -/
def pick (ks : List κ) (es : List (κ × α)) : List (κ × α) :=
  ks.filterMap fun k => (get? k es).map (k, ·)

end ApiTree.Entries
