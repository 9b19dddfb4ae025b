import ApiTree.Text.Numeral
import Mathlib

/-!
# Decimal numerals

The digits of a number in base ten are read back as the number (`naturalIn?_toDigits`), and they do
not start with a zero unless the number is zero. Of two numbers with equally many digits the smaller
one has the text that comes first (`toString_lt_toString`); the texts of other numbers may be in the
other order.
-/

set_option autoImplicit false

namespace ApiTree.Text

/-! ## Reading digits -/

theorem asciiDigit_iff {c : Char} :
    c.isDigit = true ↔ '0'.toNat ≤ c.toNat ∧ c.toNat ≤ '9'.toNat := by
  rw [Char.isDigit, Bool.and_eq_true, decide_eq_true_eq, decide_eq_true_eq]
  exact Iff.rfl

theorem digitIn?_of_isDigit {c : Char} (h : c.isDigit) : digitIn? 10 c = some (c.toNat - 48) := by
  have hrange : c.toNat - 48 < 10 := by
    have hle : c.toNat ≤ 57 := (asciiDigit_iff.mp h).2
    omega
  rw [digitIn?, if_pos h]
  simpa [Option.filter] using hrange

theorem naturalIn?_of_isDigit {ds : List Char} (hne : ds ≠ []) (h : ∀ d ∈ ds, d.isDigit) :
    naturalIn? 10 ds = some (Nat.ofDigitChars 10 ds 0) := by
  rw [naturalIn?, if_neg (by simpa using hne)]
  -- the number that was read so far is carried along
  suffices hread : ∀ n, ds.foldlM (fun n d => (digitIn? 10 d).map (10 * n + ·)) n =
      some (Nat.ofDigitChars 10 ds n) from hread 0
  clear hne
  induction ds with
  | nil => intro n; rfl
  | cons d ds ih =>
    intro n
    rw [List.forall_mem_cons] at h
    rw [List.foldlM_cons, digitIn?_of_isDigit h.1, Nat.ofDigitChars_cons, ← ih h.2]
    rfl

theorem isDigit_of_mem_toDigits {n : Nat} : ∀ d ∈ Nat.toDigits 10 n, d.isDigit := by
  intro d hd
  exact Nat.isDigit_of_mem_toDigits (by decide) (by decide) hd

/-- The digits of a number are read as the number. -/
theorem naturalIn?_toDigits (n : Nat) : naturalIn? 10 (Nat.toDigits 10 n) = some n := by
  rw [naturalIn?_of_isDigit Nat.toDigits_ne_nil isDigit_of_mem_toDigits,
    Nat.ofDigitChars_ten_toDigits]

/-- The digits of a positive number do not start with a zero. -/
theorem head?_toDigits_ne_zero {n : Nat} (h : 0 < n) : (Nat.toDigits 10 n).head? ≠ some '0' := by
  induction n using Nat.strongRecOn with
  | ind n ih =>
    rw [Nat.toDigits_eq_if (by decide)]
    split
    · next hlt =>
      clear ih
      interval_cases n <;> decide
    · next hge =>
      have hfirst := ih (n / 10) (by omega) (by omega)
      rw [List.head?_append_of_ne_nil _ Nat.toDigits_ne_nil]
      exact hfirst

theorem lt_pow_iff_length_toDigits_le {n k : Nat} (hk : 0 < k) :
    n < Nat.pow 10 k ↔ (Nat.toDigits 10 n).length ≤ k :=
  (Nat.length_toDigits_le_iff (by decide) hk).symm

/-! ## The order of numerals as texts -/

/-- The value of the first digit counts for the digits after it. -/
theorem ofDigitChars_cons_eq (d : Char) (ds : List Char) :
    Nat.ofDigitChars 10 (d :: ds) 0 =
      10 ^ ds.length * (d.toNat - '0'.toNat) + Nat.ofDigitChars 10 ds 0 := by
  rw [Nat.ofDigitChars_cons, Nat.mul_zero, Nat.zero_add, Nat.ofDigitChars_eq_ofDigitChars_zero]

theorem ofDigitChars_lt_pow {ds : List Char} (h : ∀ d ∈ ds, d.isDigit) :
    Nat.ofDigitChars 10 ds 0 < 10 ^ ds.length := by
  induction ds with
  | nil => simp
  | cons d ds ih =>
    rw [List.forall_mem_cons] at h
    have hrest := ih h.2
    have hdigit : d.toNat ≤ '9'.toNat := (asciiDigit_iff.mp h.1).2
    have hnine : '9'.toNat = '0'.toNat + 9 := rfl
    rw [ofDigitChars_cons_eq, List.length_cons, Nat.pow_succ]
    calc 10 ^ ds.length * (d.toNat - '0'.toNat) + Nat.ofDigitChars 10 ds 0
        < 10 ^ ds.length * (d.toNat - '0'.toNat) + 10 ^ ds.length := by omega
      _ = 10 ^ ds.length * (d.toNat - '0'.toNat + 1) := by ring
      _ ≤ 10 ^ ds.length * 10 := Nat.mul_le_mul_left _ (by omega)

/-- Of lists of equally many digits the one of the smaller number comes first. -/
theorem lt_of_ofDigitChars_lt {ds es : List Char} (hds : ∀ d ∈ ds, d.isDigit)
    (hes : ∀ e ∈ es, e.isDigit) (hlength : ds.length = es.length)
    (h : Nat.ofDigitChars 10 ds 0 < Nat.ofDigitChars 10 es 0) : ds < es := by
  induction ds generalizing es with
  | nil =>
    obtain rfl := List.length_eq_zero_iff.mp hlength.symm
    exact absurd h (lt_irrefl _)
  | cons d ds ih =>
    cases es with
    | nil => cases hlength
    | cons e es =>
      rw [List.forall_mem_cons] at hds hes
      have hlength' : ds.length = es.length := Nat.succ.inj hlength
      rw [ofDigitChars_cons_eq, ofDigitChars_cons_eq, hlength'] at h
      rw [List.cons_lt_cons_iff]
      -- the first digits decide unless they are one
      rcases lt_trichotomy d e with hlt | rfl | hgt
      · exact .inl hlt
      · exact .inr ⟨rfl, ih hds.2 hes.2 hlength' (by omega)⟩
      · exfalso
        have hfirst : e.toNat - '0'.toNat + 1 ≤ d.toNat - '0'.toNat := by
          have hzero := (asciiDigit_iff.mp hes.1).1
          have hnat : e.toNat < d.toNat := hgt
          omega
        have hpow := ofDigitChars_lt_pow hes.2
        have hmul := Nat.mul_le_mul_left (10 ^ es.length) hfirst
        rw [Nat.mul_add, Nat.mul_one] at hmul
        omega

/-- Of two numerals of one length the one of the smaller number comes first. -/
theorem toString_lt_toString {m n : Nat} (hlength : (toString m).length = (toString n).length)
    (h : m < n) : toString m < toString n := by
  rw [Nat.toString_eq_repr, Nat.toString_eq_repr, Nat.repr_eq_ofList_toDigits,
    Nat.repr_eq_ofList_toDigits] at hlength ⊢
  rw [String.lt_iff_toList_lt, String.toList_ofList, String.toList_ofList]
  apply lt_of_ofDigitChars_lt isDigit_of_mem_toDigits isDigit_of_mem_toDigits
  · simpa using hlength
  · rwa [Nat.ofDigitChars_ten_toDigits, Nat.ofDigitChars_ten_toDigits]

end ApiTree.Text
