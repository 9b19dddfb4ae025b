import ApiTree.Catalog.Session
import Mathlib

/-!
# Running steps

A step gives a result and leaves a state: the session for a step of a session, the lines of the log
for a computation that writes a log. This file says what the two are for each way of putting steps
together, and for the steps of a session that read the tree.
-/

set_option autoImplicit false

namespace ApiTree

section

variable {σ α β : Type}

/-- The result of a step and the state that it leaves. -/
def exec (m : ExceptT Fault (StateM σ) α) (s : σ) : Except Fault α × σ := m.run s

theorem exec_pure (a : α) (s : σ) : exec (pure a) s = (.ok a, s) := rfl

theorem exec_get (s : σ) : exec get s = (.ok s, s) := rfl

theorem exec_modify (f : σ → σ) (s : σ) : exec (modify f) s = (.ok (), f s) := rfl

theorem exec_bind (m : ExceptT Fault (StateM σ) α) (f : α → ExceptT Fault (StateM σ) β) (s : σ) :
    exec (m >>= f) s =
      match exec m s with
      | (.ok a, t) => exec (f a) t
      | (.error e, t) => (.error e, t) := by
  unfold exec ExceptT.run
  simp only [bind, ExceptT.bind, ExceptT.mk, StateT.bind, ExceptT.bindCont]
  cases m s with
  | mk r t => cases r <;> rfl

theorem exec_bind_of_ok {m : ExceptT Fault (StateM σ) α} {a : α} {s t : σ}
    (h : exec m s = (.ok a, t)) (f : α → ExceptT Fault (StateM σ) β) :
    exec (m >>= f) s = exec (f a) t := by
  rw [exec_bind, h]

theorem exec_map (f : α → β) (m : ExceptT Fault (StateM σ) α) (s : σ) :
    exec (f <$> m) s = ((exec m s).1.map f, (exec m s).2) := by
  unfold exec ExceptT.run
  simp only [Functor.map, ExceptT.map, ExceptT.mk, bind, StateT.bind]
  cases m s with
  | mk r t => cases r <;> rfl

theorem exec_liftM (r : Except Fault α) (s : σ) :
    exec (liftM r : ExceptT Fault (StateM σ) α) s = (r, s) := by
  cases r <;> rfl

/-- A loop whose rounds all succeed, where `P` holds of what has been collected, of the state and of
the rounds that remain. -/
theorem exec_foldlM {P : β → σ → List α → Prop} {step : β → α → ExceptT Fault (StateM σ) β}
    (hstep : ∀ b s a as, P b s (a :: as) → ∃ b' s', exec (step b a) s = (.ok b', s') ∧ P b' s' as)
    {as : List α} {b : β} {s : σ} (h : P b s as) :
    ∃ b' s', exec (as.foldlM step b) s = (.ok b', s') ∧ P b' s' [] := by
  induction as generalizing b s with
  | nil => exact ⟨b, s, rfl, h⟩
  | cons a as ih =>
    -- the first round keeps `P`, so the induction takes over from what it collected
    obtain ⟨b', s', hexec, h'⟩ := hstep b s a as h
    obtain ⟨b'', s'', hrest, h''⟩ := ih h'
    refine ⟨b'', s'', ?_, h''⟩
    rw [List.foldlM_cons, exec_bind_of_ok hexec]
    exact hrest

/-- A loop whose rounds all succeed and leave the state as it is. -/
theorem exec_foldlM_eq (f : β → α → β) (step : β → α → ExceptT Fault (StateM σ) β) (s : σ)
    (as : List α) (hstep : ∀ a ∈ as, ∀ b, exec (step b a) s = (.ok (f b a), s)) (b : β) :
    exec (as.foldlM step b) s = (.ok (as.foldl f b), s) := by
  induction as generalizing b with
  | nil => rfl
  | cons a as ih =>
    rw [List.foldlM_cons, exec_bind_of_ok (hstep a List.mem_cons_self b)]
    exact ih (fun a' ha' => hstep a' (List.mem_cons_of_mem a ha')) (f b a)

/-- Steps one after the other give results in which the state has no part, if each of them does. -/
theorem fst_exec_bind {m : ExceptT Fault (StateM σ) α} {f : α → ExceptT Fault (StateM σ) β}
    {r : Except Fault α} {g : α → Except Fault β} {s : σ} (hm : (exec m s).1 = r)
    (hf : ∀ a t, (exec (f a) t).1 = g a) : (exec (m >>= f) s).1 = r >>= g := by
  rw [exec_bind, ← hm]
  rcases exec m s with ⟨fault | a, t⟩
  · rfl
  · exact hf a t

theorem fst_exec_foldlM {f : β → α → Except Fault β} {step : β → α → ExceptT Fault (StateM σ) β}
    (hstep : ∀ b a s, (exec (step b a) s).1 = f b a) (as : List α) (b : β) (s : σ) :
    (exec (as.foldlM step b) s).1 = as.foldlM f b := by
  induction as generalizing b s with
  | nil => rfl
  | cons a as ih =>
    rw [List.foldlM_cons, List.foldlM_cons]
    exact fst_exec_bind (hstep b a s) ih

end

theorem collect_eq_exec {α : Type} (m : Logged α) : m.collect = exec m [] := rfl

namespace Run

theorem exec_ofLogged {α : Type} (m : Logged α) (s : Session) :
    exec (ofLogged m) s = (m.collect.1, { s with events := s.events ++ m.collect.2.map .log }) := by
  rcases h : m.collect with ⟨r, lines⟩
  simp only [ofLogged, h, exec_bind, exec_modify, exec_liftM]

/-! ## Steps that read the tree -/

theorem exec_catalog (s : Session) : exec catalog s = (.ok s.catalog, s) := rfl

theorem exec_modifyCatalog (f : Catalog → Catalog) (s : Session) :
    exec (modifyCatalog f) s = (.ok (), { s with catalog := f s.catalog }) := rfl

theorem exec_clear (s : Session) :
    exec clear s = (.ok (), { s with catalog := s.catalog.forget }) :=
  rfl

/-- A table that is remembered is not read again. -/
theorem exec_table_of_some {s : Session} {t : OperationTable} (h : s.catalog.table? = some t) :
    exec table s = (.ok t, s) := by
  simp only [table, exec_bind, exec_get, h, exec_pure]

/-- A table that is not remembered is read, and remembered if the reading succeeds. -/
theorem exec_table_of_none {s : Session} (h : s.catalog.table? = none) :
    ∃ events, exec table s =
      match (OperationTable.build s.disk s.catalog.root s.catalog.base).collect.1 with
      | .ok t => (.ok t, { s with events, catalog := { s.catalog with table? := some t } })
      | .error f => (.error f, { s with events }) := by
  simp only [table, exec_bind, exec_get, h, exec_ofLogged, exec_modifyCatalog, exec_pure]
  rcases (OperationTable.build s.disk s.catalog.root s.catalog.base).collect with ⟨f | t, lines⟩
  · exact ⟨_, rfl⟩
  · exact ⟨_, rfl⟩

/-- A static part that is remembered is not made again. -/
theorem exec_staticDocument_of_some {s : Session} {version : String} {document : Fields}
    (h : Entries.get? version s.catalog.statics = some document) :
    exec (staticDocument version) s = (.ok document, s) := by
  simp only [staticDocument, exec_bind, exec_get, h, exec_pure]

/-- A static part that is not remembered is made, and remembered if the making succeeds. -/
theorem exec_staticDocument_of_none {s : Session} {version : String}
    (h : Entries.get? version s.catalog.statics = none) :
    ∃ events, exec (staticDocument version) s =
      match (StaticPart.document s.disk s.catalog.root s.catalog.base s.catalog.staticExclusions
        version).collect.1 with
      | .ok document => (.ok document, { s with events, catalog := { s.catalog with
          statics := Entries.put version document s.catalog.statics } })
      | .error f => (.error f, { s with events }) := by
  simp only [staticDocument, exec_bind, exec_get, h, exec_ofLogged, exec_modifyCatalog, exec_pure]
  rcases (StaticPart.document s.disk s.catalog.root s.catalog.base s.catalog.staticExclusions
    version).collect with ⟨f | document, lines⟩
  · exact ⟨_, rfl⟩
  · exact ⟨_, rfl⟩

end Run
end ApiTree
