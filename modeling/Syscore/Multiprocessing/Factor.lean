import Mathlib.Algebra.BigOperators.Group.List.Basic
import Mathlib.Data.List.DropRight
import Mathlib.Data.Nat.Prime.Basic
import Syscore.Library.Stream

/-!
# The worker program

`factorize` and `emit` of `src/multiprocessing/factor.py`.
-/

namespace Syscore
namespace Multiprocessing

/-- White space for `str.strip`, among the ASCII characters. -/
def isblank (char : UInt8) : Bool := isspace char || (28 ≤ char && char ≤ 31)

/-- `str.strip`. -/
def strip (text : Text) : Text := (text.dropWhile isblank).rdropWhile isblank

/-- `int` of a string without underscores; `none` is a `ValueError`. -/
def int (text : Text) : Option ℤ :=
  let (digits, value, rest) := splitInt (strip text)
  if digits ≠ [] ∧ rest = [] then some value else none

/-- The inner loop of `factorize`: `m` and `factors` after it. -/
def divideOut (d m : ℕ) (factors : List ℕ) : ℕ × List ℕ :=
  if 2 ≤ d ∧ 0 < m ∧ m % d = 0 then divideOut d (m / d) (factors ++ [d]) else (m, factors)
termination_by m
decreasing_by
  rename_i divides
  exact Nat.div_lt_self divides.2.1 divides.1

theorem divideOut_le (d m : ℕ) (factors : List ℕ) : (divideOut d m factors).1 ≤ m := by
  fun_induction divideOut d m factors with
  | case1 m factors divides ih => exact ih.trans (Nat.div_le_self m d)
  | case2 m factors stops => exact le_rfl

/-- The outer loop of `factorize`: `m` and `factors` after it. -/
def trialDivision (d m : ℕ) (factors : List ℕ) : ℕ × List ℕ :=
  if d * d ≤ m then
    trialDivision (if d = 2 then d + 1 else d + 2) (divideOut d m factors).1
      (divideOut d m factors).2
  else
    (m, factors)
termination_by m + 1 - d
decreasing_by
  rename_i below
  have smaller := divideOut_le d m factors
  have bound : d ≤ m := by
    rcases Nat.eq_zero_or_pos d with rfl | positive
    · exact Nat.zero_le m
    · exact (Nat.le_mul_of_pos_left d positive).trans below
  split <;> omega

/-- `factorize`. -/
def factorize (n : ℤ) : List ℕ :=
  if n < 2 then
    if 0 ≤ n then [n.toNat] else []
  else
    let (m, factors) := trialDivision 2 n.toNat []
    if 1 < m then factors ++ [m] else factors

/-- The line that `emit` writes for a number and the text it was given. -/
def factored (text : Text) (n : ℤ) : Text :=
  let factors := factorize n
  let body := if factors = [] then text else (ascii " * ").intercalate (factors.map decimal)
  text ++ ascii " = " ++ body ++ [newline]

/-- `emit`; `none` when `int` raises. -/
def emit (text : Text) : Option Text := (int text).map (factored text)

/-! ## Reading what the manager writes -/

theorem isblank_decimalInt {value : ℤ} {char : UInt8} (inside : char ∈ decimalInt value) :
    isblank char = false := by
  have digit : char = 45 ∨ isdigit char = true := by
    rw [decimalInt] at inside
    split at inside
    · exact (List.mem_cons.mp inside).imp id ((decimal_spec value.natAbs).1 char)
    · exact .inr ((decimal_spec value.natAbs).1 char inside)
  rcases digit with rfl | digit
  · rfl
  · obtain ⟨lower, -⟩ := isdigit_iff.mp digit
    rw [isblank, isspace_digit digit, Bool.false_or, Bool.and_eq_false_iff]
    right
    rw [decide_eq_false_iff_not, UInt8.le_iff_toNat_le]
    change ¬ char.toNat ≤ 31
    omega

theorem decimalInt_ne_nil (value : ℤ) : decimalInt value ≠ [] := by
  obtain ⟨first, others, shape, -⟩ := decimalInt_head value
  rw [shape]
  exact List.cons_ne_nil first others

/-- Stripping removes the blanks behind a printed number, and nothing else. -/
theorem strip_decimalInt (value : ℤ) {blanks : Text}
    (blank : ∀ char ∈ blanks, isblank char = true) :
    strip (decimalInt value ++ blanks) = decimalInt value := by
  have dropped : (decimalInt value ++ blanks).dropWhile isblank = decimalInt value ++ blanks := by
    cases shape : decimalInt value with
    | nil => exact absurd shape (decimalInt_ne_nil value)
    | cons first others =>
        have here : first ∈ decimalInt value := by
          rw [shape]
          exact List.mem_cons_self
        rw [List.cons_append, List.dropWhile_cons_of_neg (by simp [isblank_decimalInt here])]
  have back : (decimalInt value ++ blanks).rdropWhile isblank =
      (decimalInt value).rdropWhile isblank := by
    rw [List.rdropWhile, List.reverse_append, List.dropWhile_append_of_pos, ← List.rdropWhile]
    exact fun char inside => blank char (List.mem_reverse.mp inside)
  rw [strip, dropped, back, List.rdropWhile_eq_self_iff]
  intro nonempty
  rw [isblank_decimalInt (List.getLast_mem nonempty)]
  exact Bool.false_ne_true

/-- `int` reads back what was printed. -/
theorem int_decimalInt (value : ℤ) : int (decimalInt value) = some value := by
  have stripped : strip (decimalInt value) = decimalInt value := by
    have whole : strip (decimalInt value ++ []) = decimalInt value :=
      strip_decimalInt value nofun
    rwa [List.append_nil] at whole
  have read : splitInt (decimalInt value ++ []) = (decimal value.natAbs, value, []) :=
    splitInt_decimalInt_append value nofun
  rw [List.append_nil] at read
  have digits := (decimal_spec value.natAbs).2.1
  simp only [int, stripped, read]
  rw [if_pos ⟨digits, trivial⟩]

theorem emit_decimalInt (value : ℤ) :
    emit (decimalInt value) = some (factored (decimalInt value) value) := by
  rw [emit, int_decimalInt, Option.map_some]

/-! ## The factors -/

/-- The inner loop takes out every factor `d`. -/
theorem divideOut_spec {d m : ℕ} (large : 2 ≤ d) (positive : 0 < m) (factors : List ℕ) :
    ∃ k, divideOut d m factors = (m / d ^ k, factors ++ List.replicate k d) ∧ d ^ k ∣ m ∧
      ¬ d ∣ m / d ^ k := by
  fun_induction divideOut d m factors with
  | case1 m factors divides ih =>
      have divisor := Nat.dvd_of_mod_eq_zero divides.2.2
      obtain ⟨k, result, power, rest⟩ := ih (Nat.div_pos (Nat.le_of_dvd positive divisor)
        (by omega))
      refine ⟨k + 1, ?_, ?_, ?_⟩
      · rw [result, Nat.div_div_eq_div_mul, ← Nat.pow_succ', List.append_assoc,
          List.singleton_append, ← List.replicate_succ]
      · rw [Nat.pow_succ']
        exact (Nat.dvd_div_iff_mul_dvd divisor).mp power
      · rw [Nat.pow_succ', ← Nat.div_div_eq_div_mul]
        exact rest
  | case2 m factors stops =>
      refine ⟨0, ?_, ?_, ?_⟩
      · simp
      · simp
      · rw [Nat.pow_zero, Nat.div_one]
        exact fun divisor => stops ⟨large, positive, Nat.mod_eq_zero_of_dvd divisor⟩

/-- What the outer loop knows: nothing below `d` divides `m`, and beyond 2 it tries odd numbers. -/
structure Searching (d m : ℕ) : Prop where
  large : 2 ≤ d
  positive : 0 < m
  least : ∀ p, p.Prime → p ∣ m → d ≤ p
  odd : d = 2 ∨ d % 2 = 1

variable {d m : ℕ}

/-- Before the first division nothing is known. -/
theorem searching_two {n : ℕ} (positive : 0 < n) : Searching 2 n where
  large := le_rfl
  positive := positive
  least _ prime _ := prime.two_le
  odd := .inl rfl

/-- A `d` that divides is prime. -/
theorem Searching.prime (searching : Searching d m) (divides : d ∣ m) : d.Prime := by
  have prime := Nat.minFac_prime (show d ≠ 1 by have := searching.large; omega)
  have least := searching.least d.minFac prime ((Nat.minFac_dvd d).trans divides)
  have same : d.minFac = d :=
    le_antisymm (Nat.minFac_le (by have := searching.large; omega)) least
  rwa [same] at prime

/-- What is left when the square of `d` exceeds it is prime, or 1. -/
theorem Searching.rest_prime (searching : Searching d m) (above : m < d * d) (large : 1 < m) :
    m.Prime := by
  by_contra composite
  have square := Nat.minFac_sq_le_self searching.positive composite
  have least := searching.least m.minFac (Nat.minFac_prime (by omega)) (Nat.minFac_dvd m)
  have bound := Nat.mul_le_mul least least
  rw [pow_two] at square
  omega

/-- The next number to try, once `d` is taken out. -/
theorem Searching.next (searching : Searching d m) {m' : ℕ} (divides : m' ∣ m)
    (out : ¬ d ∣ m') : Searching (if d = 2 then d + 1 else d + 2) m' where
  large := by
    have := searching.large
    split <;> omega
  positive := Nat.pos_of_dvd_of_pos divides searching.positive
  least p prime divisor := by
    have least := searching.least p prime (divisor.trans divides)
    have apart : p ≠ d := by
      rintro rfl
      exact out divisor
    split
    · omega
    · rename_i past
      have odd := searching.odd.resolve_left past
      have large := searching.large
      rcases prime.eq_two_or_odd with even | odd' <;> omega
  odd := by
    right
    have odd := searching.odd
    split <;> omega

/-- The loop keeps the product and collects primes; what it leaves is prime, or 1. -/
theorem trialDivision_spec (searching : Searching d m) {factors : List ℕ}
    (primes : ∀ p ∈ factors, p.Prime) :
    (trialDivision d m factors).2.prod * (trialDivision d m factors).1 = factors.prod * m ∧
      (∀ p ∈ (trialDivision d m factors).2, p.Prime) ∧ 0 < (trialDivision d m factors).1 ∧
      (1 < (trialDivision d m factors).1 → (trialDivision d m factors).1.Prime) := by
  fun_induction trialDivision d m factors with
  | case1 d m factors below ih =>
      obtain ⟨k, result, power, out⟩ := divideOut_spec searching.large searching.positive factors
      rw [result] at ih ⊢
      rw [dite_eq_ite] at ih
      have quotient : m / d ^ k ∣ m := Nat.div_dvd_of_dvd power
      have collected : ∀ p ∈ factors ++ List.replicate k d, p.Prime := by
        intro p inside
        rcases List.mem_append.mp inside with old | new
        · exact primes p old
        · obtain ⟨some, rfl⟩ := List.mem_replicate.mp new
          exact searching.prime ((dvd_pow_self p some).trans power)
      obtain ⟨product, rest⟩ := ih (searching.next quotient out) collected
      refine ⟨?_, rest⟩
      rw [product, List.prod_append, List.prod_replicate, mul_assoc, Nat.mul_div_cancel' power]
  | case2 d m factors above =>
      exact ⟨rfl, primes, searching.positive, searching.rest_prime (by omega)⟩

/-- From 2 on, the factors are primes whose product is the number. -/
theorem factorize_spec {n : ℤ} (large : 2 ≤ n) :
    ((factorize n).prod : ℤ) = n ∧ ∀ p ∈ factorize n, p.Prime := by
  have start : Searching 2 n.toNat := searching_two (by omega)
  have empty : ∀ p ∈ ([] : List ℕ), p.Prime := nofun
  obtain ⟨product, primes, positive, rest⟩ := trialDivision_spec start empty
  rw [List.prod_nil, one_mul] at product
  have back : (n.toNat : ℤ) = n := Int.toNat_of_nonneg (by omega)
  rw [factorize, if_neg (by omega)]
  dsimp only
  split
  · rename_i left
    refine ⟨?_, fun p inside => ?_⟩
    · rw [List.prod_append, List.prod_singleton, product, back]
    · rcases List.mem_append.mp inside with old | new
      · exact primes p old
      · rw [List.mem_singleton.mp new]
        exact rest left
  · rename_i done
    have one : (trialDivision 2 n.toNat []).1 = 1 := by omega
    rw [one, mul_one] at product
    rw [product, back]
    exact ⟨rfl, primes⟩

end Multiprocessing
end Syscore
