import ApiTree.Yaml.Node
import Mathlib

/-!
# Where the reader of nodes stops

The reader of nodes passes tokens and asks for nothing else, so it either breaks a rule of the
format or stops at a token that could not be read, with the error of that token.
-/

set_option autoImplicit false

namespace ApiTree.Yaml.Node

/-- A step of reading passes some of the tokens, breaks a rule, or stops with the failure of a token
that could not be read. -/
def Consumes {α : Type} (m : Read α) : Prop :=
  ∀ r : Reader, match m r with
    | .ok p => p.2.tokens <:+ r.tokens
    | .error (.problem _) => True
    | .error (.failure f) => .invalid (.failure f) ∈ r.tokens

section Combined

variable {α β : Type}

theorem Consumes.pure (a : α) : Consumes (Pure.pure a : Read α) := fun _ => List.suffix_rfl

theorem consumes_refuse (p : Problem) : Consumes (refuse p : Read α) := fun _ => trivial

theorem Consumes.ite {p : Prop} [Decidable p] {m m' : Read α} (hm : Consumes m)
    (hm' : Consumes m') : Consumes (if p then m else m') := by
  split
  · exact hm
  · exact hm'

theorem Consumes.bind {m : Read α} {next : α → Read β} (hm : Consumes m)
    (hnext : ∀ a, Consumes (next a)) : Consumes (m >>= next) := by
  intro r
  have hr := hm r
  -- a reading is a function of its reader; unfold the sequence once, here
  change match (m r).bind fun p => next p.1 p.2 with
    | .ok p => p.2.tokens <:+ r.tokens
    | .error (.problem _) => True
    | .error (.failure f) => .invalid (.failure f) ∈ r.tokens
  rcases hmr : m r with (p | f) | p
  · trivial
  · rw [hmr] at hr
    exact hr
  · rw [hmr] at hr
    have hp := hnext p.1 p.2
    dsimp only [Except.bind]
    split
    · rename_i heq
      rw [heq] at hp
      exact hp.trans hr
    · trivial
    · rename_i heq
      rw [heq] at hp
      exact hr.subset hp

theorem consumes_get : Consumes get := fun _ => List.suffix_rfl

theorem consumes_handles (handles : Reader → List (String × String)) :
    Consumes (modify fun r => { r with handles := handles r }) := fun _ => List.suffix_rfl

theorem consumes_anchors (anchors : Reader → List (String × (Node ⊕ Nat))) :
    Consumes (modify fun r => { r with anchors := anchors r }) := fun _ => List.suffix_rfl

/-- A rule that may be broken before the reading goes on. -/
theorem Consumes.unless {broken : Prop} [Decidable broken] {problem : Problem}
    {next : PUnit → Read β} (hnext : Consumes (next ())) :
    Consumes (if broken then do let u ← refuse problem; next u else next ()) := by
  split
  · exact (consumes_refuse _).bind fun _ => hnext
  · exact hnext

end Combined

/-! ## Single tokens -/

theorem consumes_peek : Consumes peek := by
  intro r
  obtain ⟨tokens, handles, anchors⟩ := r
  rcases tokens with - | ⟨t, ts⟩
  · trivial
  -- what cannot be read stops the reading; every other token is only looked at
  · cases t with
    | invalid e =>
      cases e with
      | problem p => trivial
      | failure f => exact List.mem_cons_self
    | _ => exact List.suffix_rfl

theorem consumes_drop : Consumes drop := fun r => List.tail_suffix r.tokens

theorem consumes_accept (t : Token) : Consumes (accept t) := by
  refine consumes_peek.bind fun t' => ?_
  split
  · exact consumes_drop.bind fun _ => .pure _
  · exact .pure _

theorem consumes_expect (t : Token) : Consumes (expect t) := by
  apply (consumes_accept t).bind
  intro b
  split
  · exact consumes_refuse _
  · exact .pure _

theorem consumes_nextIs (ts : List Token) : Consumes (nextIs ts) :=
  consumes_peek.bind fun _ => .pure _

theorem consumes_tagName (t : TagText) : Consumes (tagName t) := by
  unfold tagName
  split
  · exact .pure _
  · apply consumes_get.bind
    intro r
    split
    · exact .pure _
    · exact consumes_refuse _

theorem consumes_properties : Consumes properties := by
  apply consumes_peek.bind
  intro t
  split
  · apply consumes_drop.bind
    intro _
    apply consumes_peek.bind
    intro t
    split
    · exact consumes_drop.bind fun _ => (consumes_tagName _).bind fun _ => .pure _
    · exact .pure _
  · apply consumes_drop.bind
    intro _
    apply consumes_peek.bind
    intro t
    split
    · exact consumes_drop.bind fun _ => (consumes_tagName _).bind fun _ => .pure _
    · exact (consumes_tagName _).bind fun _ => .pure _
  · exact .pure _

/-! ## Nodes -/

/-- The readers of the grammar that take the given fuel consume tokens. -/
structure Grammar (fuel : Nat) : Prop where
  node : ∀ context depth, Consumes (node fuel context depth)
  content : ∀ context depth tag, Consumes (content fuel context depth tag)
  blockItems : ∀ depth, Consumes (blockItems fuel depth)
  plainItems : ∀ depth, Consumes (plainItems fuel depth)
  blockEntries : ∀ depth, Consumes (blockEntries fuel depth)
  flowItems : ∀ depth first, Consumes (flowItems fuel depth first)
  flowEntries : ∀ depth first, Consumes (flowEntries fuel depth first)

section Step

variable {fuel : Nat} (h : Grammar fuel)
include h

/-- The entry of a collection: nothing is written where one of the given tokens follows. -/
theorem consumes_entry {β : Type} (ends : List Token) (context : Context) (depth : Nat)
    {next : Node → Read β} (hnext : ∀ n, Consumes (next n)) :
    Consumes (do
      let n ← if ← nextIs ends then pure empty else Node.node fuel context depth
      next n) := by
  apply (consumes_nextIs _).bind
  intro b
  dsimp only
  split
  · exact (Consumes.pure _).bind hnext
  · exact (h.node _ _).bind hnext

/-- The value of an entry, which may be left out. -/
theorem consumes_value {β : Type} (ends : List Token) (context : Context) (depth : Nat)
    {next : Node → Read β} (hnext : ∀ n, Consumes (next n)) :
    Consumes (do
      let n ←
        if ← accept .value then
          if ← nextIs ends then pure empty else Node.node fuel context depth
        else pure empty
      next n) := by
  apply (consumes_accept _).bind
  intro b
  dsimp only
  split
  · exact consumes_entry h _ _ _ hnext
  · exact (Consumes.pure _).bind hnext

theorem consumes_node (context : Context) (depth : Nat) :
    Consumes (Node.node (fuel + 1) context depth) := by
  rw [Node.node]
  apply consumes_peek.bind
  intro t
  split
  · apply consumes_drop.bind
    intro _
    apply consumes_get.bind
    intro r
    split
    · exact .pure _
    · exact .pure _
    · exact consumes_refuse _
  · apply consumes_properties.bind
    intro p
    apply consumes_peek.bind
    intro t
    obtain ⟨anchor, tag⟩ := p
    refine .unless ?_
    -- an anchor is noted twice: while its node is read, and with the node afterwards
    cases anchor with
    | none => exact (h.content _ _ _).bind fun n => .pure _
    | some a =>
      refine consumes_get.bind fun r => .unless ?_
      apply (consumes_anchors _).bind
      intro _
      apply (h.content _ _ _).bind
      intro n
      exact (consumes_anchors _).bind fun _ => .pure _

theorem consumes_content (context : Context) (depth : Nat) (tag : Option String) :
    Consumes (content (fuel + 1) context depth tag) := by
  rw [content]
  apply consumes_peek.bind
  intro t
  split
  · exact consumes_drop.bind fun _ => .pure _
  · exact consumes_drop.bind fun _ => (h.flowItems _ _).bind fun _ => .pure _
  · exact consumes_drop.bind fun _ => (h.flowEntries _ _).bind fun _ => .pure _
  · split
    · exact .pure _
    · exact consumes_drop.bind fun _ => (h.blockItems _).bind fun _ => .pure _
  · split
    · exact .pure _
    · exact consumes_drop.bind fun _ => (h.blockEntries _).bind fun _ => .pure _
  · split
    · exact (h.plainItems _).bind fun _ => .pure _
    · exact .pure _
  · exact .pure _

theorem consumes_blockItems (depth : Nat) : Consumes (blockItems (fuel + 1) depth) := by
  rw [blockItems]
  apply (consumes_accept _).bind
  intro b
  split
  · exact consumes_entry h _ _ _ fun n => (h.blockItems depth).bind fun _ => .pure _
  · exact (consumes_expect _).bind fun _ => .pure _

theorem consumes_plainItems (depth : Nat) : Consumes (plainItems (fuel + 1) depth) := by
  rw [plainItems]
  apply (consumes_accept _).bind
  intro b
  split
  · exact consumes_entry h _ _ _ fun n => (h.plainItems depth).bind fun _ => .pure _
  · exact .pure _

theorem consumes_blockEntries (depth : Nat) : Consumes (blockEntries (fuel + 1) depth) := by
  rw [blockEntries]
  apply (consumes_accept _).bind
  intro b
  split
  · refine consumes_entry h _ _ _ fun key => consumes_value h _ _ _ fun value => ?_
    exact (h.blockEntries depth).bind fun _ => .pure _
  · exact (consumes_expect _).bind fun _ => .pure _

theorem consumes_flowItems (depth : Nat) (first : Bool) :
    Consumes (flowItems (fuel + 1) depth first) := by
  rw [flowItems]
  apply (consumes_accept _).bind
  intro b
  split
  · exact .pure _
  -- the item is the same whether or not a comma had to come first
  have hitem : Consumes (do
      if ← accept .flowSequenceEnd then return []
      else if ← accept .key then
        let key ←
          if ← nextIs [.value, .flowEntry, .flowSequenceEnd] then pure empty
          else Node.node fuel .flow (depth + 1)
        let value ←
          if ← accept .value then
            if ← nextIs [.flowEntry, .flowSequenceEnd] then pure empty
            else Node.node fuel .flow (depth + 1)
          else pure empty
        return .map .map [(key, value)] :: (← flowItems fuel depth false)
      else
        let item ← Node.node fuel .flow depth
        return item :: (← flowItems fuel depth false)) := by
    refine (consumes_accept _).bind fun b => .ite (.pure _) ((consumes_accept _).bind fun b => ?_)
    refine .ite ?_ ((h.node _ _).bind fun n => (h.flowItems _ _).bind fun _ => .pure _)
    refine consumes_entry h _ _ _ fun key => consumes_value h _ _ _ fun value => ?_
    exact (h.flowItems _ _).bind fun _ => .pure _
  split
  · exact (consumes_expect _).bind fun _ => hitem
  · exact hitem

theorem consumes_flowEntries (depth : Nat) (first : Bool) :
    Consumes (flowEntries (fuel + 1) depth first) := by
  rw [flowEntries]
  apply (consumes_accept _).bind
  intro b
  split
  · exact .pure _
  -- the entry is the same whether or not a comma had to come first
  have hitem : Consumes (do
      if ← accept .flowMappingEnd then return []
      else if ← accept .key then
        let key ←
          if ← nextIs [.value, .flowEntry, .flowMappingEnd] then pure empty
          else Node.node fuel .flow depth
        let value ←
          if ← accept .value then
            if ← nextIs [.flowEntry, .flowMappingEnd] then pure empty
            else Node.node fuel .flow depth
          else pure empty
        return (key, value) :: (← flowEntries fuel depth false)
      else
        let key ← Node.node fuel .flow depth
        return (key, empty) :: (← flowEntries fuel depth false)) := by
    refine (consumes_accept _).bind fun b => .ite (.pure _) ((consumes_accept _).bind fun b => ?_)
    refine .ite ?_ ((h.node _ _).bind fun n => (h.flowEntries _ _).bind fun _ => .pure _)
    refine consumes_entry h _ _ _ fun key => consumes_value h _ _ _ fun value => ?_
    exact (h.flowEntries _ _).bind fun _ => .pure _
  split
  · exact (consumes_expect _).bind fun _ => hitem
  · exact hitem

end Step

theorem grammar (fuel : Nat) : Grammar fuel := by
  induction fuel with
  | zero =>
    -- without fuel every reader refuses
    constructor <;> intros <;>
      simp only [node, content, blockItems, plainItems, blockEntries, flowItems, flowEntries] <;>
      exact consumes_refuse _
  | succ fuel ih =>
    exact ⟨consumes_node ih, consumes_content ih, consumes_blockItems ih, consumes_plainItems ih,
      consumes_blockEntries ih, consumes_flowItems ih, consumes_flowEntries ih⟩

/-! ## Documents -/

theorem consumes_directives (fuel : Nat) (versioned : Bool) (handles : List (String × String)) :
    Consumes (directives fuel versioned handles) := by
  induction fuel generalizing versioned handles with
  | zero => exact consumes_refuse _
  | succ fuel ih =>
    rw [directives]
    apply consumes_peek.bind
    intro t
    split
    · exact consumes_drop.bind fun _ => .ite (consumes_refuse _) (ih _ _)
    · exact consumes_drop.bind fun _ => .ite (consumes_refuse _) (ih _ _)
    · exact consumes_drop.bind fun _ => ih _ _
    · exact .pure _

theorem consumes_documentEnds (fuel : Nat) : Consumes (documentEnds fuel) := by
  induction fuel with
  | zero => exact .pure _
  | succ fuel ih => exact (consumes_accept _).bind fun b => .ite ih (.pure _)

theorem consumes_markedDocument (fuel : Nat) : Consumes (markedDocument fuel) := by
  apply (consumes_directives _ _ _).bind
  intro handles
  apply (consumes_expect _).bind
  intro _
  apply (consumes_handles _).bind
  intro _
  apply consumes_peek.bind
  intro t
  split
  all_goals first | exact .pure _ | exact (grammar fuel).node _ _

theorem consumes_after (fuel : Nat) (n : Node) : Consumes (document.after fuel n) := by
  apply (consumes_documentEnds _).bind
  intro _
  apply consumes_peek.bind
  intro t
  -- a second document is read as far as its start, only to be refused
  have hrefused : Consumes (do
      let _ ← directives fuel false []
      expect .documentStart
      refuse .documents : Read (Option Node)) :=
    (consumes_directives _ _ _).bind fun _ => (consumes_expect _).bind fun _ => consumes_refuse _
  split
  all_goals first | exact .pure _ | exact hrefused | exact consumes_refuse _

theorem consumes_document (fuel : Nat) : Consumes (document fuel) := by
  have hbare : Consumes (bareDocument fuel) :=
    (consumes_handles _).bind fun _ => (grammar fuel).node _ _
  apply consumes_peek.bind
  intro t
  split
  all_goals
    first
    | exact .pure _
    | exact (consumes_markedDocument fuel).bind (consumes_after fuel)
    | exact hbare.bind (consumes_after fuel)

/-- Reading a document fails only where a token could not be read. -/
theorem mem_of_ofTokens {tokens : List Token} {f : Failure}
    (h : ofTokens tokens = .error (.failure f)) : .invalid (.failure f) ∈ tokens := by
  have hdocument := consumes_document (4 * tokens.length + 4) ⟨tokens, [], []⟩
  change (document (4 * tokens.length + 4) ⟨tokens, [], []⟩).map Prod.fst = _ at h
  cases hread : document (4 * tokens.length + 4) ⟨tokens, [], []⟩ with
  | ok p => rw [hread] at h; cases h
  | error e =>
    rw [hread] at h hdocument
    cases h
    exact hdocument

end ApiTree.Yaml.Node
