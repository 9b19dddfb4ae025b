import ApiTree.Proofs.Except
import ApiTree.Yaml.Meaning.Node

/-!
# Where the value of a document fails

A document may be wrong in several places. `Meaning.troubles` lists the errors in the order of the
text, each with its level. A node has a value exactly when the list is empty; else its error is the
first one on the highest level.
-/

set_option autoImplicit false

namespace ApiTree.Yaml.Meaning

/-- An error and the number of levels that it lies below its node. -/
abbrev Trouble := Nat × Error

/-! ## The error that counts -/

/-- Of two errors the one on the higher level, or the first. -/
def sooner : Option Trouble → Option Trouble → Option Trouble
  | none, u => u
  | some t, none => some t
  | some t, some u => if u.1 < t.1 then some u else some t

/-- Of several errors the one on the highest level, or the first. -/
def first : List Trouble → Option Trouble
  | [] => none
  | t :: ts => sooner (some t) (first ts)

@[simp]
theorem sooner_none (t : Option Trouble) : sooner t none = t := by
  cases t <;> rfl

theorem sooner_assoc (s t u : Option Trouble) :
    sooner (sooner s t) u = sooner s (sooner t u) := by
  rcases s with - | s
  · rfl
  rcases t with - | t
  · rfl
  rcases u with - | u
  · rw [sooner_none, sooner_none]
  by_cases hst : t.1 < s.1 <;> by_cases htu : u.1 < t.1 <;> by_cases hsu : u.1 < s.1 <;>
    first
    | omega
    | simp [sooner, hst, htu, hsu]

theorem first_append (ts us : List Trouble) :
    first (ts ++ us) = sooner (first ts) (first us) := by
  induction ts with
  | nil => rfl
  | cons t ts ih => rw [List.cons_append, first, ih, first, sooner_assoc]

theorem first_eq_none_iff {ts : List Trouble} : first ts = none ↔ ts = [] := by
  cases ts with
  | nil => simp [first]
  | cons t ts =>
    cases h : first ts with
    | none => simp [first, h]
    | some u => simp only [first, h, sooner]; split <;> simp

/-- The error that counts is one of them, and none is on a higher level. -/
theorem mem_and_le_of_first {ts : List Trouble} {t : Trouble} (h : first ts = some t) :
    t ∈ ts ∧ ∀ u ∈ ts, t.1 ≤ u.1 := by
  induction ts generalizing t with
  | nil => cases h
  | cons s ts ih =>
    cases hts : first ts with
    | none =>
      obtain rfl := first_eq_none_iff.mp hts
      obtain rfl : s = t := Option.some.inj h
      simp
    | some u =>
      obtain ⟨hmem, hle⟩ := ih hts
      rw [first, hts, sooner] at h
      split at h
      · next hlt =>
        obtain rfl := Option.some.inj h
        exact ⟨List.mem_cons_of_mem _ hmem, List.forall_mem_cons.mpr ⟨Nat.le_of_lt hlt, hle⟩⟩
      · next hlt =>
        obtain rfl := Option.some.inj h
        have hsu : s.1 ≤ u.1 := Nat.le_of_not_lt hlt
        exact ⟨List.mem_cons_self,
          List.forall_mem_cons.mpr ⟨Nat.le_refl _, fun v hv => Nat.le_trans hsu (hle v hv)⟩⟩

theorem first_cons_eq_some_iff {s t : Trouble} {ts : List Trouble} :
    first (s :: ts) = some t ↔
      s = t ∧ (∀ u ∈ ts, s.1 ≤ u.1) ∨ first ts = some t ∧ t.1 < s.1 := by
  rw [first]
  cases hts : first ts with
  | none =>
    obtain rfl := first_eq_none_iff.mp hts
    simp [sooner]
  | some u =>
    obtain ⟨hmem, hle⟩ := mem_and_le_of_first hts
    rw [sooner, Option.some.injEq]
    split
    · next hlt =>
      rw [Option.some.injEq]
      constructor
      · rintro rfl
        exact .inr ⟨rfl, hlt⟩
      · rintro (⟨-, hs⟩ | ⟨rfl, -⟩)
        · exact absurd (hs u hmem) (Nat.not_le.mpr hlt)
        · rfl
    · next hlt =>
      rw [Option.some.injEq]
      constructor
      · rintro rfl
        exact .inl ⟨rfl, fun v hv => Nat.le_trans (Nat.le_of_not_lt hlt) (hle v hv)⟩
      · rintro (⟨rfl, -⟩ | ⟨rfl, hts⟩)
        · rfl
        · exact absurd hts hlt

/-- The error that counts is on a higher level than those before it, and on no lower one than those
after it. -/
theorem first_eq_some_iff {ts : List Trouble} {t : Trouble} :
    first ts = some t ↔ ∃ before after, ts = before ++ t :: after ∧
      (∀ u ∈ before, t.1 < u.1) ∧ ∀ u ∈ after, t.1 ≤ u.1 := by
  induction ts with
  | nil => simp [first]
  | cons s ts ih =>
    rw [first_cons_eq_some_iff, ih]
    constructor
    · rintro (⟨rfl, hafter⟩ | ⟨⟨before, after, rfl, hbefore, hafter⟩, hlt⟩)
      · exact ⟨[], ts, rfl, by simp, hafter⟩
      · exact ⟨s :: before, after, rfl, List.forall_mem_cons.mpr ⟨hlt, hbefore⟩, hafter⟩
    · rintro ⟨before, after, heq, hbefore, hafter⟩
      cases before with
      | nil =>
        obtain ⟨rfl, rfl⟩ := List.cons.inj heq
        exact .inl ⟨rfl, hafter⟩
      | cons b before =>
        obtain ⟨rfl, rfl⟩ := List.cons.inj heq
        obtain ⟨hlt, hbefore⟩ := List.forall_mem_cons.mp hbefore
        exact .inr ⟨⟨before, after, rfl, hbefore, hafter⟩, hlt⟩

/-! ## Errors of combined results -/

/-- The error of a result. -/
def trouble? {α : Type} : Result α → Option Trouble
  | .ok _ => none
  | .error t => some t

/-- Errors of an entry as errors of its collection. -/
def deeper (ts : List Trouble) : List Trouble := ts.map fun t => (t.1 + 1, t.2)

section Combined

variable {α β : Type}

@[simp]
theorem trouble?_map (f : α → β) (r : Result α) : trouble? (r.map f) = trouble? r := by
  cases r <;> rfl

theorem trouble?_both (r : Result α) (s : Result β) :
    trouble? (both r s) = sooner (trouble? r) (trouble? s) := by
  rcases r with d | a <;> rcases s with e | b
  · simp only [both, trouble?, sooner]
    split <;> rfl
  · rfl
  · rfl
  · rfl

theorem trouble?_below (r : Result α) :
    trouble? (below r) = (trouble? r).map fun t => (t.1 + 1, t.2) := by
  cases r <;> rfl

theorem sooner_map_succ (t u : Option Trouble) :
    sooner (t.map fun t => (t.1 + 1, t.2)) (u.map fun t => (t.1 + 1, t.2)) =
      (sooner t u).map fun t => (t.1 + 1, t.2) := by
  rcases t with - | t <;> rcases u with - | u
  · rfl
  · rfl
  · rfl
  · simp only [Option.map_some, sooner, Nat.add_lt_add_iff_right]
    split <;> rfl

theorem first_deeper (ts : List Trouble) :
    first (deeper ts) = (first ts).map fun t => (t.1 + 1, t.2) := by
  induction ts with
  | nil => rfl
  | cons t ts ih =>
    have hcons : deeper (t :: ts) = (t.1 + 1, t.2) :: deeper ts := rfl
    rw [hcons, first, ih, first, ← sooner_map_succ, Option.map_some]

/-- If the error of each result is the one that counts among its troubles, so is the error of all
together. -/
theorem trouble?_all {f : α → Result β} {troubles : α → List Trouble} (xs : List α)
    (h : ∀ x, trouble? (f x) = first (troubles x)) :
    trouble? (all (xs.map f)) = first (xs.flatMap troubles) := by
  induction xs with
  | nil => rfl
  | cons x xs ih =>
    rw [List.map_cons, all, trouble?_map, trouble?_both, h, ih, List.flatMap_cons, first_append]

end Combined

/-! ## The errors of a node -/

/-- The type of a collection. -/
def isCollection (tag : Tag) : Bool := tag matches .seq | .map | .set | .omap | .pairs

/-- A node that is refused as a key before its value is built: a collection, or an alias for one. -/
def isRefusedKey : Node → Bool
  | .enclosing _ => true
  | .scalar tag _ | .seq tag _ | .map tag _ => isCollection tag

/-- The errors of a scalar of the given type. -/
def scalarTroubles (tag : Tag) (text : String) : List Trouble :=
  match scalar tag text with
  | .ok _ => []
  | .error e => [(0, e)]

section Parts

variable (troubles : Node → List Trouble)

/-- The errors of a key. -/
def keyTroubles (n : Node) : List Trouble :=
  if isRefusedKey n then [(0, .problem .key)]
  else
    match n with
    | .scalar .value _ => []
    | n => troubles n

/-- The errors of an entry. -/
def entryTroubles (e : Node × Node) : List Trouble :=
  deeper (keyTroubles troubles e.1 ++ troubles e.2)

/-- The errors of an item of a list of pairs. -/
def pairTroubles : Node → List Trouble
  | .map _ [(k, v)] => deeper (troubles k ++ troubles v)
  | _ => [(1, .problem .tag)]

end Parts

/-- The errors of a node in the order of the text. -/
def troubles : Nat → Node → List Trouble
  | 0, _ => []
  | _ + 1, .enclosing _ => []
  | _ + 1, .scalar tag text =>
    if isCollection tag then [(1, .problem .tag)] else scalarTroubles tag text
  | fuel + 1, .seq tag items =>
    match tag with
    | .seq => items.flatMap fun item => deeper (troubles fuel item)
    | .omap | .pairs => items.flatMap (pairTroubles (troubles fuel))
    | .map | .set => [(1, .problem .tag)]
    | _ => [(0, .problem .tag)]
  | fuel + 1, .map tag es =>
    match tag with
    | .map | .set =>
      match Node.mergedEntries fuel es with
      | .error e => [(1, e)]
      | .ok es => es.flatMap (entryTroubles (troubles fuel))
    | .seq | .omap | .pairs => [(1, .problem .tag)]
    | .merge | .value | .unknown => [(0, .problem .tag)]
    | _ =>
      match (Node.map tag es).scalarText? (fuel + 1) with
      | none => [(0, .problem .tag)]
      | some text =>
        if tag = .timestamp then [(0, .failure .wrongKind)] else scalarTroubles tag text

theorem isKey_of_timestampOf {text : List Char} {v : Value} (h : timestampOf text = .ok v) :
    v.isKey = true := by
  unfold timestampOf at h
  simp only [bind, Except.bind] at h
  split at h
  · cases h
  rename_i t _
  cases htime : t.time with
  | none =>
    rw [htime] at h
    dsimp only at h
    cases hday : Date.ofParts? (digitsValue t.year) (digitsValue t.month) (digitsValue t.day) <;>
      rw [hday] at h <;> cases h
    rfl
  | some clock =>
    obtain ⟨hour, minute, second, fraction, zone⟩ := clock
    rw [htime] at h
    dsimp only at h
    split at h
    · cases h
    · rename_i day _
      generalize Timestamp.ofParts? day _ _ _ _ _ = time? at h
      cases time? <;> cases h
      rfl

/-- A scalar is a value that can be a key. -/
theorem isKey_of_scalar {tag : Tag} {text : String} {v : Value} (h : scalar tag text = .ok v) :
    v.isKey = true := by
  cases tag <;> simp only [scalar, reduceCtorEq] at h
  case null | str => cases h; rfl
  case bool => cases hb : boolOf text <;> rw [hb] at h <;> cases h; rfl
  case int => cases hi : intOf text.toList <;> rw [hi] at h <;> cases h; rfl
  case float => cases hx : floatOf text.toList <;> rw [hx] at h <;> cases h; rfl
  case binary => cases hb : bytesOf text.toList <;> rw [hb] at h <;> cases h; rfl
  case timestamp =>
    cases ht : timestampOf text.toList <;> rw [ht] at h <;> cases h
    exact isKey_of_timestampOf ht

theorem trouble?_here_scalar (tag : Tag) (text : String) :
    trouble? (here (scalar tag text)) = first (scalarTroubles tag text) := by
  unfold scalarTroubles
  cases scalar tag text <;> rfl

/-- The value of a node that is not refused as a key can be one. -/
theorem isKey_of_node {fuel : Nat} {n : Node} {v : Value} (hn : isRefusedKey n = false)
    (h : node fuel n = .ok v) : v.isKey = true := by
  cases fuel with
  | zero => cases h; rfl
  | succ fuel =>
    have hscalar (tag : Tag) (text : String) (h : here (scalar tag text) = .ok v) :
        v.isKey = true := by
      cases hv : scalar tag text <;> rw [hv] at h <;> cases h
      exact isKey_of_scalar hv
    cases n with
    | enclosing levels => simp [isRefusedKey] at hn
    | scalar tag text =>
      refine hscalar tag text (h ▸ ?_)
      cases tag <;> first | rfl | simp [isRefusedKey, isCollection] at hn
    | seq tag items =>
      cases tag <;> first | simp [node] at h; done | simp [isRefusedKey, isCollection] at hn
    | map tag es =>
      cases ht : (Node.map tag es).scalarText? (fuel + 1) with
      | none =>
        cases tag <;>
          first | simp [node, ht] at h; done | simp [isRefusedKey, isCollection] at hn
      | some text =>
        refine hscalar tag text (h ▸ ?_)
        cases tag <;>
          first
          | simp [node, ht] at h; done
          | simp [isRefusedKey, isCollection] at hn; done
          | simp [node, ht]

theorem trouble?_key (fuel : Nat) (n : Node)
    (ih : trouble? (node fuel n) = first (troubles fuel n)) :
    trouble? (key (node fuel) n) = first (keyTroubles (troubles fuel) n) := by
  have hkey (hn : isRefusedKey n = false) :
      trouble? (asKey (node fuel n)) = first (troubles fuel n) := by
    rw [← ih]
    cases h : node fuel n with
    | error t => rfl
    | ok v => rw [asKey, if_pos (isKey_of_node hn h)]
  -- keys need the case split: an alias or a collection is refused before it has a value
  cases n with
  | enclosing levels => rfl
  | scalar tag text => cases tag <;> first | rfl | exact hkey rfl
  | seq tag items => cases tag <;> first | rfl | exact hkey rfl
  | map tag es => cases tag <;> first | rfl | exact hkey rfl

/-- The error of a node is the one that counts among its troubles. -/
theorem trouble?_node (fuel : Nat) (n : Node) :
    trouble? (node fuel n) = first (troubles fuel n) := by
  induction fuel generalizing n with
  | zero => rfl
  | succ fuel ih =>
    -- the errors of a part lie one level below those of the node; `ih` is about the part
    have hentry (e : Node × Node) : trouble? (below (both (key (node fuel) e.1) (node fuel e.2))) =
        first (entryTroubles (troubles fuel) e) := by
      rw [trouble?_below, trouble?_both, trouble?_key fuel e.1 (ih e.1), ih, entryTroubles,
        first_deeper, first_append]
    have hpair (item : Node) :
        trouble? (pair (node fuel) item) = first (pairTroubles (troubles fuel) item) := by
      unfold pair
      split
      · rw [trouble?_map, trouble?_below, trouble?_both, ih, ih, pairTroubles, first_deeper,
          first_append]
      · rw [pairTroubles]
        · rfl
        · assumption
    cases n with
    | enclosing levels => rfl
    | scalar tag text =>
      cases tag <;> first | rfl | exact trouble?_here_scalar _ _
    | seq tag items =>
      cases tag <;> try rfl
      case seq =>
        refine (trouble?_map _ _).trans (trouble?_all items fun item => ?_)
        rw [trouble?_below, ih, first_deeper]
      case omap => exact (trouble?_map _ _).trans (trouble?_all items hpair)
      case pairs => exact (trouble?_map _ _).trans (trouble?_all items hpair)
    | map tag es =>
      have hentries : trouble? (entries (node fuel) fuel es) = first
          (match Node.mergedEntries fuel es with
            | .error e => [(1, e)]
            | .ok es => es.flatMap (entryTroubles (troubles fuel))) := by
        unfold entries
        cases Node.mergedEntries fuel es with
        | error e => rfl
        | ok es => exact (trouble?_map _ _).trans (trouble?_all es hentry)
      cases tag <;> try rfl
      case map => exact (trouble?_map _ _).trans hentries
      case set => exact (trouble?_map _ _).trans hentries
      -- what is left is read as a scalar, through the text of the mapping
      all_goals
        simp only [node, troubles]
        generalize Node.scalarText? (fuel + 1) _ = text?
        cases text? with
        | none => rfl
        | some text => first | rfl | exact trouble?_here_scalar _ text

/-! ## Errors that are failures -/

/-- A scalar claims a type that its text does not have: a truth value, a number or a time. A mapping
that is read as a time fails as well. -/
inductive Misfit : Failure → Prop where
  | bool {text : String} {f : Failure} (h : boolOf text = .error f) : Misfit f
  | int {text : List Char} {f : Failure} (h : intOf text = .error f) : Misfit f
  | float {text : List Char} {f : Failure} (h : floatOf text = .error f) : Misfit f
  | timestamp {text : List Char} {f : Failure} (h : timestampOf text = .error f) : Misfit f
  | mapping : Misfit .wrongKind

theorem misfit_of_scalarTroubles {tag : Tag} {text : String} {d : Nat} {f : Failure}
    (h : (d, .failure f) ∈ scalarTroubles tag text) : Misfit f := by
  have hscalar : scalar tag text = .error (.failure f) := by
    unfold scalarTroubles at h
    split at h
    · cases h
    · rename_i e he
      obtain rfl := (Prod.mk.inj (List.mem_singleton.mp h)).2
      exact he
  -- only the types with a syntax of their own can fail
  cases tag <;> simp only [scalar, reduceCtorEq, Except.error.injEq] at hscalar
  case bool =>
    cases hb : boolOf text <;> rw [hb] at hscalar <;> cases hscalar
    exact .bool hb
  case int =>
    cases hi : intOf text.toList <;> rw [hi] at hscalar <;> cases hscalar
    exact .int hi
  case float =>
    cases hx : floatOf text.toList <;> rw [hx] at hscalar <;> cases hscalar
    exact .float hx
  case timestamp =>
    cases ht : timestampOf text.toList <;> rw [ht] at hscalar <;> cases hscalar
    exact .timestamp ht
  case binary =>
    unfold bytesOf at hscalar
    split at hscalar
    · cases hb : base64Bytes text.toList 0 0 0 [] <;> rw [hb] at hscalar <;> cases hscalar
    · cases hscalar

theorem eq_error_of_bind_pure {α β ε : Type} {r : Except ε α} {f : α → β} {e : ε}
    (h : (do let a ← r; return f a) = .error e) : r = .error e := by
  cases r with
  | error e' => cases h; rfl
  | ok a => cases h

/-- What a merge names is refused only if it is no mapping. -/
theorem eq_merge_of_named {fuel : Nat} {n : Node} {e : Error}
    (ih : ∀ es, Node.mergedEntries fuel es = .error e → e = .problem .merge)
    (h : (match n with
      | .map _ es => Node.mergedEntries fuel es
      | .enclosing _ => .ok []
      | _ => .error (.problem .merge)) = .error e) : e = .problem .merge := by
  split at h
  · exact ih _ h
  · cases h
  · exact (Except.error.inj h).symm

/-- Resolving merges fails only on what is no mapping. -/
theorem mergedEntries_error {fuel : Nat} {es : List (Node × Node)} {e : Error}
    (h : Node.mergedEntries fuel es = .error e) : e = .problem .merge := by
  induction fuel generalizing es with
  | zero => cases h
  | succ fuel ih =>
    rw [Node.mergedEntries] at h
    -- some entry fails: a `<<` with a list fails at one item, any other at what it names
    obtain ⟨entry, -, hentry⟩ := exists_of_mapM_eq_error (eq_error_of_bind_pure h)
    split at hentry
    · obtain ⟨item, -, hitem⟩ := exists_of_mapM_eq_error (eq_error_of_bind_pure hentry)
      exact eq_merge_of_named (fun _ => ih) hitem
    · exact eq_merge_of_named (fun _ => ih) hentry

theorem mem_of_mem_deeper {d : Nat} {e : Error} {ts : List Trouble} (h : (d, e) ∈ deeper ts) :
    ∃ d', (d', e) ∈ ts := by
  obtain ⟨⟨d', e'⟩, hmem, heq⟩ := List.mem_map.mp h
  obtain rfl := (Prod.mk.inj heq).2
  exact ⟨d', hmem⟩

/-- The failures of a node are those of its scalars. -/
theorem misfit_of_mem_troubles {fuel : Nat} {n : Node} {d : Nat} {f : Failure}
    (h : (d, .failure f) ∈ troubles fuel n) : Misfit f := by
  induction fuel generalizing n d with
  | zero => cases h
  | succ fuel ih =>
    have hkey {n : Node} {d : Nat} (h : (d, .failure f) ∈ keyTroubles (troubles fuel) n) :
        Misfit f := by
      unfold keyTroubles at h
      split at h
      · simp at h
      · split at h
        · cases h
        · exact ih h
    cases n with
    | enclosing levels => cases h
    | scalar tag text =>
      rw [troubles] at h
      split at h
      · simp at h
      · exact misfit_of_scalarTroubles h
    | seq tag items =>
      cases tag <;> simp only [troubles, List.mem_flatMap] at h <;> try (simp at h)
      case seq =>
        obtain ⟨item, -, hitem⟩ := h
        obtain ⟨d', hmem⟩ := mem_of_mem_deeper hitem
        exact ih hmem
      all_goals
        obtain ⟨item, -, hitem⟩ := h
        unfold pairTroubles at hitem
        split at hitem
        · obtain ⟨d', hmem⟩ := mem_of_mem_deeper hitem
          exact (List.mem_append.mp hmem).elim ih ih
        · simp at hitem
    | map tag es =>
      -- merging breaks rules but never fails, so a failure comes from an entry
      have hentries (h : (d, .failure f) ∈ (match Node.mergedEntries fuel es with
          | .error e => [(1, e)]
          | .ok es => es.flatMap (entryTroubles (troubles fuel)))) : Misfit f := by
        split at h
        · rename_i e he
          rw [mergedEntries_error he] at h
          simp at h
        · obtain ⟨entry, -, hentry⟩ := List.mem_flatMap.mp h
          obtain ⟨d', hmem⟩ := mem_of_mem_deeper hentry
          exact (List.mem_append.mp hmem).elim hkey ih
      cases tag <;> simp only [troubles] at h <;> try simp at h; done
      case map => exact hentries h
      case set => exact hentries h
      all_goals
        split at h
        · simp at h
        · first
          | simp only [reduceCtorEq, if_false] at h; exact misfit_of_scalarTroubles h
          | simp at h; exact h.2 ▸ .mapping

end ApiTree.Yaml.Meaning
