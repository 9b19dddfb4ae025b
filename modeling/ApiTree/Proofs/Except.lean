import Mathlib

/-!
# Steps that succeed

A computation that can fail gives a result if each of its steps does. The lemmas below take such a
computation apart, so that what is needed for a result can be read off it.
-/

set_option autoImplicit false

namespace ApiTree

variable {ε δ α β γ : Type}

/-- The computation gives a result. -/
def Succeeds (r : Except ε α) : Prop := ∃ a, r = .ok a

@[simp]
theorem succeeds_ok (a : α) : Succeeds (.ok a : Except ε α) := ⟨a, rfl⟩

@[simp]
theorem succeeds_pure (a : α) : Succeeds (pure a : Except ε α) := ⟨a, rfl⟩

@[simp]
theorem not_succeeds_error (e : ε) : ¬ Succeeds (.error e : Except ε α) := by
  rintro ⟨a, h⟩
  cases h

@[simp]
theorem not_succeeds_throw (e : ε) : ¬ Succeeds (throw e : Except ε α) := not_succeeds_error e

theorem ok_bind (a : α) (f : α → Except ε β) : (.ok a : Except ε α) >>= f = f a := rfl

theorem bind_eq_ok {x : Except ε α} {f : α → Except ε β} {b : β} :
    x >>= f = .ok b ↔ ∃ a, x = .ok a ∧ f a = .ok b := by
  cases x with
  | error e => simp [bind, Except.bind]
  | ok a => simp [bind, Except.bind]

theorem bind_eq_error {x : Except ε α} {f : α → Except ε β} {e : ε} :
    x >>= f = .error e ↔ x = .error e ∨ ∃ a, x = .ok a ∧ f a = .error e := by
  cases x with
  | error e => simp [bind, Except.bind]
  | ok a => simp [bind, Except.bind]

theorem succeeds_bind {x : Except ε α} {f : α → Except ε β} :
    Succeeds (x >>= f) ↔ ∃ a, x = .ok a ∧ Succeeds (f a) := by
  simp only [Succeeds, bind_eq_ok]
  constructor
  · rintro ⟨b, a, hx, hf⟩
    exact ⟨a, hx, b, hf⟩
  · rintro ⟨a, hx, b, hf⟩
    exact ⟨b, a, hx, hf⟩

theorem exists_ok_and_iff {x : Except ε α} {P : α → Prop} :
    (∃ a, x = .ok a ∧ P a) ↔ Succeeds x ∧ ∀ a, x = .ok a → P a := by
  constructor
  · rintro ⟨a, rfl, ha⟩
    exact ⟨⟨a, rfl⟩, fun b hb => Except.ok.inj hb ▸ ha⟩
  · rintro ⟨⟨a, ha⟩, hP⟩
    exact ⟨a, ha, hP a ha⟩

/-- A step that gives a result whatever comes before it. -/
theorem succeeds_bind_of_forall {x : Except ε α} {f : α → Except ε β} (hf : ∀ a, Succeeds (f a)) :
    Succeeds (x >>= f) ↔ Succeeds x := by
  rw [succeeds_bind]
  exact exists_congr fun a => and_iff_left (hf a)

/-- Two steps of which the second succeeds or fails whatever the first one gives. -/
theorem succeeds_bind_and {x : Except ε α} {f : α → Except ε β} {P Q : Prop} (hx : Succeeds x ↔ P)
    (hf : ∀ a, x = .ok a → (Succeeds (f a) ↔ Q)) : Succeeds (x >>= f) ↔ P ∧ Q := by
  rw [succeeds_bind, ← hx]
  constructor
  · rintro ⟨a, ha, hsecond⟩
    exact ⟨⟨a, ha⟩, (hf a ha).mp hsecond⟩
  · rintro ⟨⟨a, ha⟩, hQ⟩
    exact ⟨a, ha, (hf a ha).mpr hQ⟩

theorem map_eq_ok {x : Except ε α} {f : α → β} {b : β} :
    x.map f = .ok b ↔ ∃ a, x = .ok a ∧ f a = b := by
  cases x with
  | error e => simp [Except.map]
  | ok a => simp [Except.map]

@[simp]
theorem map_eq_error {x : Except ε α} {f : α → β} {e : ε} : x.map f = .error e ↔ x = .error e := by
  cases x with
  | error e => simp [Except.map]
  | ok a => simp [Except.map]

@[simp]
theorem succeeds_map {x : Except ε α} {f : α → β} : Succeeds (x.map f) ↔ Succeeds x := by
  cases x with
  | error e => simp [Except.map]
  | ok a => simp [Except.map]

@[simp]
theorem mapError_eq_ok {x : Except ε α} {f : ε → δ} {a : α} :
    x.mapError f = .ok a ↔ x = .ok a := by
  cases x with
  | error e => simp [Except.mapError]
  | ok b => simp [Except.mapError]

@[simp]
theorem succeeds_mapError {x : Except ε α} {f : ε → δ} : Succeeds (x.mapError f) ↔ Succeeds x := by
  cases x with
  | error e => simp [Except.mapError]
  | ok a => simp [Except.mapError]

theorem mapError_eq_error {x : Except ε α} {f : ε → δ} {e : δ} :
    x.mapError f = .error e ↔ ∃ d, x = .error d ∧ f d = e := by
  cases x with
  | error d => simp [Except.mapError]
  | ok a => simp [Except.mapError]

theorem map_of_bind (x : Except ε α) (f : α → Except ε β) (g : β → γ) :
    (x >>= f).map g = x >>= fun a => (f a).map g := by
  cases x <;> rfl

/-- Steps on the elements of a list that fail, fail at one of the elements. -/
theorem exists_of_mapM_eq_error {f : α → Except ε β} {as : List α} {e : ε}
    (h : as.mapM f = .error e) : ∃ a ∈ as, f a = .error e := by
  induction as with
  | nil => cases h
  | cons a as ih =>
    rw [List.mapM_cons, bind_eq_error] at h
    rcases h with h | ⟨b, -, h⟩
    · exact ⟨a, List.mem_cons_self, h⟩
    · rcases bind_eq_error.mp h with h | ⟨bs, -, h⟩
      · obtain ⟨c, hc, hfail⟩ := ih h
        exact ⟨c, List.mem_cons_of_mem a hc, hfail⟩
      · cases h

/-- The results of a step on each element of a list have a property. -/
theorem exists_mapM_ok_forall {f : α → Except ε β} {P : β → Prop} {as : List α} :
    (∃ bs, as.mapM f = .ok bs ∧ ∀ b ∈ bs, P b) ↔ ∀ a ∈ as, ∃ b, f a = .ok b ∧ P b := by
  induction as with
  | nil =>
    constructor
    · intro _ a ha
      cases ha
    · intro _
      exact ⟨[], rfl, fun b hb => by cases hb⟩
  | cons a as ih =>
    rw [List.forall_mem_cons, ← ih]
    constructor
    · rintro ⟨bs, hbs, hP⟩
      rw [List.mapM_cons] at hbs
      obtain ⟨b, hb, hrest⟩ := bind_eq_ok.mp hbs
      obtain ⟨cs, hcs, heq⟩ := bind_eq_ok.mp hrest
      obtain rfl := Except.ok.inj heq
      rw [List.forall_mem_cons] at hP
      exact ⟨⟨b, hb, hP.1⟩, cs, hcs, hP.2⟩
    · rintro ⟨⟨b, hb, hPb⟩, cs, hcs, hP⟩
      refine ⟨b :: cs, ?_, List.forall_mem_cons.mpr ⟨hPb, hP⟩⟩
      rw [List.mapM_cons, hb, hcs]
      rfl

/-- Steps that give each element a result in the relation give a list of such results. -/
theorem exists_mapM_ok_forall₂ {f : α → Except ε β} {R : α → β → Prop} {as : List α}
    (h : ∀ a ∈ as, ∃ b, f a = .ok b ∧ R a b) : ∃ bs, as.mapM f = .ok bs ∧ List.Forall₂ R as bs := by
  induction as with
  | nil => exact ⟨[], rfl, .nil⟩
  | cons a as ih =>
    rw [List.forall_mem_cons] at h
    obtain ⟨b, hb, hab⟩ := h.1
    obtain ⟨bs, hbs, hrest⟩ := ih h.2
    refine ⟨b :: bs, ?_, .cons hab hrest⟩
    rw [List.mapM_cons, hb, hbs]
    rfl

theorem succeeds_mapM {f : α → Except ε β} {as : List α} :
    Succeeds (as.mapM f) ↔ ∀ a ∈ as, Succeeds (f a) := by
  have h : (∃ bs, as.mapM f = .ok bs ∧ ∀ b ∈ bs, True) ↔ ∀ a ∈ as, ∃ b, f a = .ok b ∧ True :=
    exists_mapM_ok_forall
  simpa [Succeeds] using h

theorem succeeds_mapM_option {f : α → Except ε β} {x : Option α} :
    Succeeds (x.mapM f) ↔ ∀ a ∈ x, Succeeds (f a) := by
  cases x with
  | none => simp
  | some a =>
    rw [Option.mapM_some, map_eq_pure_bind, succeeds_bind_of_forall fun _ => succeeds_pure _]
    simp

theorem mapM_map_eq (f : α → Except ε β) (g : β → γ) (as : List α) :
    as.mapM (fun a => (f a).map g) = (as.mapM f).map (List.map g) := by
  induction as with
  | nil => rfl
  | cons a as ih =>
    rw [List.mapM_cons, List.mapM_cons, ih]
    cases f a with
    | error e => rfl
    | ok b => cases as.mapM f <;> rfl

/-- What is kept of a list with one more element in front. -/
theorem map_filter_bind_cons (keep : β → Bool) (b : β) (x : Except ε (List β)) :
    (x >>= fun bs => pure (b :: bs)).map (List.filter keep) =
      (x.map (List.filter keep)).map ([b].filter keep ++ ·) := by
  cases x with
  | error e => rfl
  | ok bs => exact congrArg Except.ok (List.filter_append [b] bs)

/-- Elements whose results are not kept do not matter. -/
theorem map_filter_mapM {f : α → Except ε β} {keep : β → Bool} {heeded : α → Bool} {as : List α}
    (h : ∀ a ∈ as, heeded a = false → ∃ b, f a = .ok b ∧ keep b = false) :
    (as.mapM f).map (List.filter keep) =
      ((as.filter heeded).mapM f).map (List.filter keep) := by
  induction as with
  | nil => rfl
  | cons a as ih =>
    rw [List.forall_mem_cons] at h
    cases ha : heeded a with
    | false =>
      obtain ⟨b, hb, hdropped⟩ := h.1 ha
      have hnone : [b].filter keep = [] := by simp [hdropped]
      rw [List.filter_cons_of_neg (by simp [ha]), ← ih h.2, List.mapM_cons, hb, ok_bind,
        map_filter_bind_cons, hnone]
      cases as.mapM f <;> rfl
    | true =>
      rw [List.filter_cons_of_pos ha, List.mapM_cons, List.mapM_cons]
      cases f a with
      | error e => rfl
      | ok b => rw [ok_bind, ok_bind, map_filter_bind_cons, map_filter_bind_cons, ih h.2]

/-- Rounds that succeed or fail whatever was collected before them. -/
theorem succeeds_foldlM {f : β → α → Except ε β} {P : α → Prop} {as : List α}
    (hf : ∀ a ∈ as, ∀ b, Succeeds (f b a) ↔ P a) (b : β) :
    Succeeds (as.foldlM f b) ↔ ∀ a ∈ as, P a := by
  induction as generalizing b with
  | nil => simp
  | cons a as ih =>
    rw [List.forall_mem_cons] at hf ⊢
    exact succeeds_bind_and (hf.1 b) fun b' _ => ih hf.2 b'

/-- Rounds that collect the results of a step on each element fail at the first element at which the
step fails, and in its way. -/
theorem foldlM_eq_error_iff {f : α → Except ε γ} {g : β → γ → β} {as : List α} {b : β} {e : ε} :
    as.foldlM (fun b a => do return g b (← f a)) b = .error e ↔
      ∃ before a after, as = before ++ a :: after ∧ (∀ x ∈ before, Succeeds (f x)) ∧
        f a = .error e := by
  induction as generalizing b with
  | nil => simp [pure, Except.pure]
  | cons a as ih =>
    rw [List.foldlM_cons, bind_eq_error]
    cases ha : f a with
    | error e' =>
      constructor
      · rintro (h | ⟨_, h, -⟩)
        · exact ⟨[], a, as, rfl, nofun, ha.trans (congrArg _ (Except.error.inj h))⟩
        · cases h
      · rintro ⟨before, x, after, has, hbefore, hx⟩
        cases before with
        | nil =>
          obtain ⟨rfl, -⟩ := List.cons.inj has
          exact .inl (congrArg _ (Except.error.inj (ha.symm.trans hx)))
        | cons y before =>
          obtain ⟨rfl, -⟩ := List.cons.inj has
          obtain ⟨c, hc⟩ := hbefore a List.mem_cons_self
          cases ha.symm.trans hc
    | ok c =>
      constructor
      · rintro (h | ⟨b', hb', h⟩)
        · cases h
        · obtain ⟨before, x, after, rfl, hbefore, hx⟩ := ih.mp h
          exact ⟨a :: before, x, after, rfl, List.forall_mem_cons.mpr ⟨⟨c, ha⟩, hbefore⟩, hx⟩
      · rintro ⟨before, x, after, has, hbefore, hx⟩
        cases before with
        | nil =>
          obtain ⟨rfl, -⟩ := List.cons.inj has
          cases ha.symm.trans hx
        | cons y before =>
          obtain ⟨rfl, rfl⟩ := List.cons.inj has
          exact .inr ⟨g b c, rfl, ih.mpr
            ⟨before, x, after, rfl, (List.forall_mem_cons.mp hbefore).2, hx⟩⟩

theorem succeeds_filterM {f : α → Except ε Bool} {as : List α} :
    Succeeds (as.filterM f) ↔ ∀ a ∈ as, Succeeds (f a) := by
  -- the elements that are kept so far do not matter
  have hkept (kept : List α) : Succeeds (List.filterAuxM f as kept) ↔ ∀ a ∈ as, Succeeds (f a) := by
    induction as generalizing kept with
    | nil => simp [List.filterAuxM]
    | cons a as ih =>
      rw [List.filterAuxM, succeeds_bind, List.forall_mem_cons]
      constructor
      · rintro ⟨keep, hkeep, hrest⟩
        exact ⟨⟨keep, hkeep⟩, (ih _).mp hrest⟩
      · rintro ⟨⟨keep, hkeep⟩, hrest⟩
        exact ⟨keep, hkeep, (ih _).mpr hrest⟩
  rw [List.filterM, succeeds_bind_of_forall fun _ => succeeds_pure _]
  exact hkept []

theorem filterM_eq_ok {f : α → Except ε Bool} {keep : α → Bool} {as : List α}
    (h : ∀ a ∈ as, f a = .ok (keep a)) : as.filterM f = .ok (as.filter keep) := by
  -- the elements that are kept so far stand in front, turned around
  have hkept (kept : List α) :
      List.filterAuxM f as kept = .ok ((as.filter keep).reverse ++ kept) := by
    induction as generalizing kept with
    | nil => rfl
    | cons a as ih =>
      rw [List.forall_mem_cons] at h
      rw [List.filterAuxM, h.1, ok_bind, ih h.2]
      cases ha : keep a with
      | false => rw [List.filter_cons_of_neg (by simp [ha])]; rfl
      | true => rw [List.filter_cons_of_pos ha, List.reverse_cons, List.append_assoc]; rfl
  rw [List.filterM, hkept, ok_bind, List.append_nil, List.reverse_reverse]
  rfl

/-! ## Results that are alike -/

/-- Two results are one failure, or values in the relation. -/
inductive Alike {ε α β : Type} (R : α → β → Prop) : Except ε α → Except ε β → Prop
  | error (e : ε) : Alike R (.error e) (.error e)
  | ok {a : α} {b : β} (h : R a b) : Alike R (.ok a) (.ok b)

section

variable {R : α → β → Prop} {S : γ → δ → Prop} {r : Except ε α} {s : Except ε β}

theorem Alike.bind {f : α → Except ε γ} {g : β → Except ε δ} (h : Alike R r s)
    (hfg : ∀ a b, R a b → Alike S (f a) (g b)) : Alike S (r >>= f) (s >>= g) := by
  cases h with
  | error e => exact .error e
  | ok h => exact hfg _ _ h

theorem Alike.map {f : α → γ} {g : β → δ} (h : Alike R r s) (hfg : ∀ a b, R a b → S (f a) (g b)) :
    Alike S (r.map f) (s.map g) := by
  cases h with
  | error e => exact .error e
  | ok h => exact .ok (hfg _ _ h)

/-- What does not tell the values apart makes one result of them. -/
theorem Alike.bind_eq {f : α → Except ε γ} {g : β → Except ε γ} (h : Alike R r s)
    (hfg : ∀ a b, R a b → f a = g b) : r >>= f = s >>= g := by
  cases h with
  | error e => rfl
  | ok h => exact hfg _ _ h

theorem Alike.map_eq {f : α → γ} {g : β → γ} (h : Alike R r s) (hfg : ∀ a b, R a b → f a = g b) :
    r.map f = s.map g := by
  cases h with
  | error e => rfl
  | ok h => exact congrArg Except.ok (hfg _ _ h)

theorem Alike.bind_eq_ok_iff {f : α → Except ε γ} {g : β → Except ε γ} (h : Alike R r s)
    {c : γ} (hfg : ∀ a b, R a b → (g b = .ok c ↔ f a = .ok c)) :
    s >>= g = .ok c ↔ r >>= f = .ok c := by
  cases h with
  | error e => exact Iff.rfl
  | ok h => exact hfg _ _ h

/-- Rounds that keep the values in the relation end with values in the relation. -/
theorem Alike.foldlM {f : α → γ → Except ε α} {g : β → γ → Except ε β} {as : List γ}
    (hstep : ∀ c ∈ as, ∀ a b, R a b → Alike R (f a c) (g b c)) {a : α} {b : β} (h : R a b) :
    Alike R (as.foldlM f a) (as.foldlM g b) := by
  induction as generalizing a b with
  | nil => exact .ok h
  | cons c as ih =>
    rw [List.foldlM_cons, List.foldlM_cons]
    exact (hstep c List.mem_cons_self a b h).bind fun a' b' h' =>
      ih (fun x hx => hstep x (List.mem_cons_of_mem c hx)) h'

/-- Steps that keep values in the relation keep lists in it. -/
theorem Alike.mapM {f : α → Except ε γ} {g : β → Except ε δ}
    (hfg : ∀ a b, R a b → Alike S (f a) (g b)) {as : List α} {bs : List β}
    (h : List.Forall₂ R as bs) : Alike (List.Forall₂ S) (as.mapM f) (bs.mapM g) := by
  induction h with
  | nil => exact .ok .nil
  | cons hab _ ih =>
    rw [List.mapM_cons, List.mapM_cons]
    refine (hfg _ _ hab).bind fun c d hcd => ?_
    exact ih.bind fun cs ds hcds => .ok (.cons hcd hcds)

end

/-- Steps that do not tell the elements of two lists apart make one result of the lists. -/
theorem mapM_eq_of_forall₂ {f : α → Except ε γ} {g : β → Except ε γ} {as : List α} {bs : List β}
    (h : List.Forall₂ (fun a b => f a = g b) as bs) : as.mapM f = bs.mapM g := by
  induction h with
  | nil => rfl
  | cons hab _ ih => rw [List.mapM_cons, List.mapM_cons, hab, ih]

end ApiTree
