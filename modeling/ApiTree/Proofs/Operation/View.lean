import ApiTree.Operation.View.Rendered
import ApiTree.Proofs.Entries
import Mathlib

/-!
# What a document says about an operation

An operation that needs an identifier and has none is at fault. Nothing else about a view is a fault
of its own. What is written over a fragment counts, unless the fragment writes the same attribute
again later on, under its name as an extension; so whether the identifier is needed is read off the
slug, unless the fragment writes the name of the operation twice.
-/

set_option autoImplicit false

namespace ApiTree

/-- The result is no fault but a failure without a message of its own. -/
def OnlyFails {α : Type} (r : Except Fault α) : Prop :=
  ∀ fault, r = .error fault → ∃ f, fault = .failed f

section

variable {α β : Type}

theorem onlyFails_ok (a : α) : OnlyFails (.ok a) := by
  intro fault h
  cases h

theorem onlyFails_mapError (r : Except Failure α) : OnlyFails (r.mapError .failed) := by
  intro fault h
  cases r with
  | ok a => cases h
  | error f => exact ⟨f, (Except.error.inj h).symm⟩

theorem OnlyFails.bind {r : Except Fault α} {g : α → Except Fault β} (hr : OnlyFails r)
    (hg : ∀ a, OnlyFails (g a)) : OnlyFails (r >>= g) := by
  intro fault h
  cases r with
  | ok a => exact hg a fault h
  | error f => exact hr fault (congrArg Except.error (Except.error.inj h))

end

namespace OperationView

variable (t : OperationView)

/-- The operation needs an identifier and has none. -/
def LacksIdentifier : Prop := (t.written "operationId").isTruthy = false ∧ t.isLegacy = .ok false

variable {t}

/-- The message about a missing identifier names the operation and its version, if these can be
written out. -/
theorem operationId_of_lacksIdentifier (h : t.LacksIdentifier) :
    t.operationId =
      if t.operation.hasLiteral && t.apiVersion.hasLiteral then
        .error (.missingOperationId t.operation t.apiVersion)
      else .error (.failed .badValue) := by
  rw [operationId]
  simp only [h.1, h.2, Bool.false_eq_true, if_false]

theorem onlyFails_operationId (h : ¬ t.LacksIdentifier) : OnlyFails t.operationId := by
  intro fault hfault
  rw [operationId] at hfault
  split at hfault
  · exact onlyFails_mapError _ fault hfault
  · next hid =>
    cases hlegacy : t.isLegacy with
    | error f =>
      rw [hlegacy] at hfault
      exact ⟨f, (Except.error.inj hfault).symm⟩
    | ok legacy =>
      cases legacy with
      | true =>
        rw [hlegacy] at hfault
        cases hfault
      | false => exact absurd ⟨Bool.eq_false_iff.mpr hid, hlegacy⟩ h

/-- An operation without the identifier that it needs is at fault, if it does not fail. -/
theorem rendered_of_lacksIdentifier (h : t.LacksIdentifier) {components : Value}
    (hfails : ∀ f, t.rendered components ≠ .error (.failed f)) :
    t.rendered components = .error (.missingOperationId t.operation t.apiVersion) := by
  rw [rendered, operationId_of_lacksIdentifier h] at hfails ⊢
  split
  · rfl
  · next hliteral =>
    rw [if_neg hliteral] at hfails
    exact absurd rfl (hfails .badValue)

/-- An operation with the identifier that it needs is not at fault. -/
theorem onlyFails_rendered (h : ¬ t.LacksIdentifier) (components : Value) :
    OnlyFails (t.rendered components) := by
  rw [rendered]
  refine (onlyFails_operationId h).bind fun id => ?_
  refine (onlyFails_mapError _).bind fun tags => ?_
  refine (onlyFails_mapError _).bind fun parameters => ?_
  refine (onlyFails_mapError _).bind fun body => ?_
  refine (onlyFails_mapError _).bind fun body => ?_
  exact (onlyFails_mapError _).bind fun responses => onlyFails_ok _

/-! ## What is written over a fragment -/

/-- The entries of a fragment that write the attribute of the given name. -/
def entriesNamed (name : String) (content : Fields) : Fields :=
  content.filter fun e => plainName e.1 = name

/-- The value that a fragment gives an attribute after the place where it writes the bare name. It
counts more than what is written at the bare name. -/
def overriding? (name : String) : Fields → Option Value
  | [] => none
  | e :: content =>
    if e.1 = .str name then ((entriesNamed name content).getLast?).map Prod.snd
    else overriding? name content

/-- The name is the plain name of itself. -/
def IsPlain (name : String) : Prop := plainName (.str name) = name

theorem get?_attributes (name : String) (fields : Fields) (legacyPrefixes : List String) :
    Fields.get? name (ofFields fields legacyPrefixes).attributes =
      ((entriesNamed name fields).getLast?).map Prod.snd := by
  have hwritten := Entries.get?_ofPairs (Value.str name)
    (fields.map fun e => (Value.str (plainName e.1), e.2))
  simp only [List.filter_map, Function.comp_def, Value.str.injEq, List.getLast?_map,
    Option.map_map] at hwritten
  exact hwritten

section

variable {name : String}

theorem entriesNamed_cons (e : Value × Value) (content : Fields) :
    entriesNamed name (e :: content) =
      if plainName e.1 = name then e :: entriesNamed name content
      else entriesNamed name content := by
  simp only [entriesNamed, List.filter_cons, decide_eq_true_eq]

theorem entriesNamed_put_of_ne {key : Value} (hkey : plainName key ≠ name) (v : Value)
    (content : Fields) :
    entriesNamed name (Entries.put key v content) = entriesNamed name content :=
  Entries.filter_put (decide_eq_false hkey) fun _ _ => decide_eq_false hkey

theorem overriding?_put_of_ne (hname : IsPlain name) {key : Value} (hkey : plainName key ≠ name)
    (v : Value) (content : Fields) :
    overriding? name (Entries.put key v content) = overriding? name content := by
  have hne : key ≠ .str name := by
    rintro rfl
    exact hkey hname
  induction content with
  | nil => simp only [Entries.put, overriding?, if_neg hne]
  | cons e content ih =>
    rw [Entries.put]
    split
    · next h => rw [overriding?, overriding?, if_neg (h ▸ hne)]
    · rw [overriding?, overriding?, ih, entriesNamed_put_of_ne hkey]

/-- What is written at the bare name counts, unless something overrides it. -/
theorem getLast?_entriesNamed_put (hname : IsPlain name) (v : Value) (content : Fields) :
    ((entriesNamed name (Entries.put (.str name) v content)).getLast?).map Prod.snd =
      some ((overriding? name content).getD v) := by
  induction content with
  | nil =>
    have hplain : plainName (.str name) = name := hname
    rw [Entries.put, entriesNamed_cons, if_pos hplain]
    rfl
  | cons e content ih =>
    rw [Entries.put, overriding?]
    split
    · next hkey =>
      rw [entriesNamed_cons, if_pos (by rw [hkey, hname]), List.getLast?_cons]
      cases (entriesNamed name content).getLast? <;> rfl
    · rw [entriesNamed_cons]
      split
      -- an entry before the bare name counts less than the last entry
      · obtain ⟨last, hlast, hvalue⟩ := Option.map_eq_some_iff.mp ih
        rw [List.getLast?_cons, hlast, ← hvalue]
        rfl
      · rw [ih]

/-- Of several values that are written at distinct names over a fragment each one counts, unless the
fragment overrides it. -/
theorem get?_ofFields_putAll (hname : IsPlain name) {v : Value} {context : Fields}
    (hcontext : (context.map fun e => plainName e.1).Nodup) (hv : (.str name, v) ∈ context)
    (content : Fields) (legacyPrefixes : List String) :
    Fields.get? name (ofFields (Entries.putAll context content) legacyPrefixes).attributes =
      some ((overriding? name content).getD v) := by
  rw [get?_attributes]
  induction context generalizing content with
  | nil => cases hv
  | cons e context ih =>
    rw [List.map_cons, List.nodup_cons] at hcontext
    obtain ⟨hfirst, hrest⟩ := hcontext
    rw [Entries.putAll, List.foldl_cons, ← Entries.putAll]
    rcases List.mem_cons.mp hv with rfl | hv
    -- nothing that is written later has the name
    · suffices hlater : ∀ written, entriesNamed name (Entries.putAll context written) =
          entriesNamed name written by
        rw [hlater, getLast?_entriesNamed_put hname]
      clear ih hrest hv
      induction context with
      | nil => exact fun _ => rfl
      | cons f context ih =>
        rw [List.map_cons, List.mem_cons, not_or, hname] at hfirst
        intro written
        rw [Entries.putAll, List.foldl_cons, ← Entries.putAll, ih (by rw [hname]; exact hfirst.2),
          entriesNamed_put_of_ne (Ne.symm hfirst.1)]
    · have hne : plainName e.1 ≠ name := fun heq =>
        hfirst (List.mem_map.mpr ⟨_, hv, by rw [hname, heq]⟩)
      rw [ih hrest hv, overriding?_put_of_ne hname hne]

/-- Nothing overrides a name that no later entry has as its plain name. -/
theorem overriding?_eq_none_iff (hname : IsPlain name) {content : Fields} :
    overriding? name content = none ↔
      content.Pairwise fun e f => e.1 = .str name → plainName f.1 ≠ name := by
  induction content with
  | nil => simp [overriding?]
  | cons e content ih =>
    rw [overriding?, List.pairwise_cons]
    split
    · next he =>
      have hlater : entriesNamed name content = [] ↔ ∀ f ∈ content, plainName f.1 ≠ name := by
        simp [entriesNamed]
      rw [Option.map_eq_none_iff, List.getLast?_eq_none_iff, hlater]
      constructor
      · intro hnone
        refine ⟨fun f hf _ => hnone f hf, List.pairwise_of_forall_mem_list ?_⟩
        intro f hf g _ hkey
        exact absurd (by rw [hkey, hname]) (hnone f hf)
      · exact fun hpairs f hf => hpairs.1 f hf he
    · next he =>
      rw [ih]
      exact ⟨fun hpairs => ⟨fun f _ hkey => absurd hkey he, hpairs⟩, And.right⟩

end

/-! ## The context of an operation -/

/-- What the context of an operation writes over its fragment. -/
def context (key : OperationKey) (version : Option String) : Fields :=
  [("operation", .str key.slug), ("api_version", .ofOption (version.map .str)),
    ("http_method", .str key.method), ("path", .str key.path)]

/-- The names of the attributes that the context writes. -/
def contextNames : List String := ["operation", "api_version", "http_method", "path"]

theorem isPlain_of_mem_contextNames {name : String} (h : name ∈ contextNames) : IsPlain name := by
  have hall : ∀ name ∈ contextNames, plainName (.str name) = name := by decide
  exact hall name h

theorem nodup_context (key : OperationKey) (version : Option String) :
    ((context key version).map fun e => plainName e.1).Nodup := by
  have hnames : (context key version).map (fun e => plainName e.1) =
      contextNames.map fun name => plainName (.str name) := rfl
  rw [hnames, List.map_congr_left fun name h => isPlain_of_mem_contextNames h, List.map_id']
  decide

/-- Each value of the context counts, unless the fragment overrides it. -/
theorem get?_ofFragment {key : OperationKey} {version : Option String} {name : String} {v : Value}
    (hname : name ∈ contextNames) (hv : (.str name, v) ∈ context key version) (content : Fields)
    (legacyPrefixes : List String) :
    Fields.get? name (ofFragment content key version legacyPrefixes).attributes =
      some ((overriding? name content).getD v) :=
  get?_ofFields_putAll (isPlain_of_mem_contextNames hname) (nodup_context key version) hv content
    legacyPrefixes

/-! ## The name of the operation -/

/-- The entries of a fragment that write the name of the operation. -/
def named (content : Fields) : Fields := content.filter fun e => plainName e.1 = "operation"

/-- A fragment that does not write the name of the operation twice does not override it. -/
theorem overriding?_operation {content : Fields}
    (h : Fields.has "operation" content = false ∨ (named content).length ≤ 1) :
    overriding? "operation" content = none := by
  induction content with
  | nil => rfl
  | cons e content ih =>
    rw [overriding?]
    split
    · next hkey =>
      have hhas : Fields.has "operation" (e :: content) = true := by
        simp [Fields.has, Entries.has, Entries.get?, hkey]
      have hlength : (e :: entriesNamed "operation" content).length ≤ 1 := by
        have hwritten := h.resolve_left (by rw [hhas]; decide)
        rwa [named, ← entriesNamed, entriesNamed_cons, if_pos (by rw [hkey]; rfl)] at hwritten
      rw [List.length_cons] at hlength
      rw [List.length_eq_zero_iff.mp (show (entriesNamed "operation" content).length = 0 by omega)]
      rfl
    · next hkey =>
      have hsublist : (named content).length ≤ (named (e :: content)).length :=
        ((List.sublist_cons_self e content).filter _).length_le
      exact ih (h.imp
        (fun hhas => by simpa [Fields.has, Entries.has, Entries.get?, hkey] using hhas)
        fun hlength => Nat.le_trans hsublist hlength)

/-- Whether an identifier is needed is read off the slug of the operation, unless its fragment
writes its name twice. -/
theorem isLegacy_ofFragment {content : Fields}
    (h : Fields.has "operation" content = false ∨ (named content).length ≤ 1)
    (key : OperationKey) (version : Option String) (legacyPrefixes : List String) :
    (ofFragment content key version legacyPrefixes).isLegacy =
      .ok (legacyPrefixes.any (Text.startsWith key.slug)) := by
  have hoperation : (ofFragment content key version legacyPrefixes).operation = .str key.slug := by
    rw [operation, writtenOrEmpty, get?_ofFragment (by decide) List.mem_cons_self,
      overriding?_operation h]
    rfl
  rw [isLegacy, hoperation]
  change (if legacyPrefixes.isEmpty = true then _ else _) = _
  cases legacyPrefixes with
  | nil => rfl
  | cons start starts => rfl

end OperationView
end ApiTree
