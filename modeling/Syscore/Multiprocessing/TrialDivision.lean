import Syscore.Multiprocessing.Factor

/-!
# The loops of `factorize`

The two loops as `factor.py` has them, without a bound of their own, stop from 2 on, and collect the
prime factors in order.
-/

namespace Syscore
namespace Multiprocessing

/-! ## The loops as written -/

/-- The inner loop; `none` when it is still running after `fuel` tests. -/
def innerLoop (d : ℕ) : ℕ → ℕ → List ℕ → Option (ℕ × List ℕ)
  | 0, _, _ => none
  | fuel + 1, m, factors =>
      if m % d = 0 then innerLoop d fuel (m / d) (factors ++ [d]) else some (m, factors)

/-- The outer loop; `none` when it is still running after `fuel` tests. -/
def outerLoop : ℕ → ℕ → ℕ → List ℕ → Option (ℕ × List ℕ)
  | 0, _, _, _ => none
  | fuel + 1, d, m, factors =>
      if d * d ≤ m then
        (innerLoop d fuel m factors).bind fun (m, factors) =>
          outerLoop fuel (if d = 2 then d + 1 else d + 2) m factors
      else
        some (m, factors)

/-- `factorize`; `none` when it is still running when the fuel is used up. -/
def factorizeWithin (fuel : ℕ) (n : ℤ) : Option (List ℕ) :=
  if n < 2 then
    some (if 0 ≤ n then [n.toNat] else [])
  else
    (outerLoop fuel 2 n.toNat []).map fun (m, factors) =>
      if 1 < m then factors ++ [m] else factors

/-- A loop stops with a result: from some fuel on, that is what it gives. -/
def Stops {α : Type*} (loop : ℕ → Option α) (result : α) : Prop :=
  ∃ enough, ∀ fuel, enough ≤ fuel → loop fuel = some result

/-! ## Termination -/

variable {d m : ℕ}

/-- The inner loop stops: `m` gets smaller. -/
theorem stops_innerLoop (large : 2 ≤ d) (positive : 0 < m) (factors : List ℕ) :
    Stops (fun fuel => innerLoop d fuel m factors) (divideOut d m factors) := by
  fun_induction divideOut d m factors with
  | case1 m factors divides ih =>
      have divisor := Nat.dvd_of_mod_eq_zero divides.2.2
      obtain ⟨enough, rest⟩ := ih (Nat.div_pos (Nat.le_of_dvd positive divisor) (by omega))
      refine ⟨enough + 1, fun fuel le => ?_⟩
      obtain ⟨fuel, rfl⟩ := Nat.exists_eq_add_of_le' (Nat.le_of_add_left_le le)
      show innerLoop d (fuel + 1) m factors = _
      rw [innerLoop, if_pos divides.2.2]
      exact rest fuel (by omega)
  | case2 m factors stops =>
      refine ⟨1, fun fuel le => ?_⟩
      obtain ⟨fuel, rfl⟩ := Nat.exists_eq_add_of_le' le
      show innerLoop d (fuel + 1) m factors = _
      rw [innerLoop, if_neg fun divides => stops ⟨large, positive, divides⟩]

/-- The outer loop stops: `d` grows and `m` does not. -/
theorem stops_outerLoop (searching : Searching d m) (factors : List ℕ) :
    Stops (fun fuel => outerLoop fuel d m factors) (trialDivision d m factors) := by
  fun_induction trialDivision d m factors with
  | case1 d m factors below ih =>
      obtain ⟨k, result, power, out⟩ := divideOut_spec searching.large searching.positive factors
      have next : Searching (if d = 2 then d + 1 else d + 2) (divideOut d m factors).1 := by
        rw [result]
        exact searching.next (Nat.div_dvd_of_dvd power) out
      rw [dite_eq_ite] at ih
      obtain ⟨enough, rest⟩ := ih next
      obtain ⟨enough', inner⟩ := stops_innerLoop searching.large searching.positive factors
      refine ⟨max enough enough' + 1, fun fuel le => ?_⟩
      obtain ⟨fuel, rfl⟩ := Nat.exists_eq_add_of_le' (Nat.le_of_add_left_le le)
      have first : innerLoop d fuel m factors = some (divideOut d m factors) :=
        inner fuel (by omega)
      show outerLoop (fuel + 1) d m factors = _
      rw [outerLoop, if_pos below, first, Option.bind_some]
      exact rest fuel (by omega)
  | case2 d m factors above =>
      refine ⟨1, fun fuel le => ?_⟩
      obtain ⟨fuel, rfl⟩ := Nat.exists_eq_add_of_le' le
      show outerLoop (fuel + 1) d m factors = _
      rw [outerLoop, if_neg above]

/-! ## The order of the factors -/

/-- The loop collects its factors in order, and none is larger than what it leaves. -/
theorem trialDivision_sorted (searching : Searching d m) {factors : List ℕ}
    (sorted : factors.Pairwise (· ≤ ·)) (tried : ∀ factor ∈ factors, factor ≤ d) :
    (trialDivision d m factors).2.Pairwise (· ≤ ·) ∧
      (1 < (trialDivision d m factors).1 →
        ∀ factor ∈ (trialDivision d m factors).2, factor ≤ (trialDivision d m factors).1) := by
  fun_induction trialDivision d m factors with
  | case1 d m factors below ih =>
      obtain ⟨k, result, power, out⟩ := divideOut_spec searching.large searching.positive factors
      rw [result] at ih ⊢
      rw [dite_eq_ite] at ih
      have equal : ∀ factor ∈ List.replicate k d, factor = d := fun _ => List.eq_of_mem_replicate
      refine ih (searching.next (Nat.div_dvd_of_dvd power) out) ?_ fun factor inside => ?_
      · rw [List.pairwise_append]
        refine ⟨sorted, List.pairwise_replicate.mpr (.inr le_rfl), fun factor old last new => ?_⟩
        rw [equal last new]
        exact tried factor old
      · have bound : factor ≤ d := by
          rcases List.mem_append.mp inside with old | new
          · exact tried factor old
          · exact (equal factor new).le
        split <;> omega
  | case2 d m factors above =>
      refine ⟨sorted, fun left factor inside => ?_⟩
      have least := searching.least m.minFac (Nat.minFac_prime (by omega)) (Nat.minFac_dvd m)
      exact (tried factor inside).trans (least.trans (Nat.minFac_le searching.positive))

/-- The factors come in order. -/
theorem factorize_sorted {n : ℤ} (large : 2 ≤ n) : (factorize n).Pairwise (· ≤ ·) := by
  obtain ⟨sorted, last⟩ :=
    trialDivision_sorted (searching_two (n := n.toNat) (by omega)) List.Pairwise.nil nofun
  rw [factorize, if_neg (by omega)]
  dsimp only
  split
  · rename_i left
    rw [List.pairwise_append]
    refine ⟨sorted, List.pairwise_singleton .., fun factor inside rest new => ?_⟩
    rw [List.mem_singleton.mp new]
    exact last left factor inside
  · exact sorted

/-- From 2 on `factorize` stops, with primes in order whose product is the number. -/
theorem factorize_stops {n : ℤ} (large : 2 ≤ n) :
    ∃ factors, Stops (fun fuel => factorizeWithin fuel n) factors ∧ factors.Pairwise (· ≤ ·) ∧
      (∀ p ∈ factors, p.Prime) ∧ (factors.prod : ℤ) = n := by
  obtain ⟨product, primes⟩ := factorize_spec large
  refine ⟨factorize n, ?_, factorize_sorted large, primes, product⟩
  obtain ⟨enough, loop⟩ := stops_outerLoop (searching_two (n := n.toNat) (by omega)) []
  refine ⟨enough, fun fuel le => ?_⟩
  have last : outerLoop fuel 2 n.toNat [] = some (trialDivision 2 n.toNat []) := loop fuel le
  show factorizeWithin fuel n = _
  rw [factorizeWithin, if_neg (by omega), last, factorize, if_neg (by omega)]
  rfl

theorem factorize_stops_composite :
    ∃ factors, Stops (fun fuel => factorizeWithin fuel 84) factors ∧ factors.Pairwise (· ≤ ·) ∧
      (∀ p ∈ factors, p.Prime) ∧ (factors.prod : ℤ) = 84 :=
  factorize_stops (by decide)

example : factorizeWithin 9 84 = some [2, 2, 3, 7] := by decide

end Multiprocessing
end Syscore
