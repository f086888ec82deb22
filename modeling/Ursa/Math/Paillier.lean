import Mathlib.Algebra.Ring.Commute
import Mathlib.Algebra.Group.Units.Basic
import Mathlib.Data.ZMod.Units
import Mathlib.Tactic.LinearCombination

namespace Paillier

-- The powers of `1 + ε` where the square of `ε` is zero, as it is for `n` modulo `n ^ 2`.

variable {R : Type*} [CommRing R] {ε : R}

theorem exists_unit (h : ε * ε = 0) :
    ∃ u : Rˣ, (u : R) = 1 + ε ∧ (↑u⁻¹ : R) = 1 - ε := by
  refine ⟨⟨1 + ε, 1 - ε, ?_, ?_⟩, rfl, rfl⟩
  all_goals linear_combination -h

theorem pow_eq (h : ε * ε = 0) (k : ℕ) : (1 + ε) ^ k = 1 + k * ε := by
  induction k
  case zero => simp
  case succ k hi =>
    rw [pow_succ, hi, Nat.cast_succ]
    linear_combination (k : R) * h

variable {u : Rˣ}

theorem zpow_eq (h : ε * ε = 0) (hu : (u : R) = 1 + ε) (hinv : (↑u⁻¹ : R) = 1 - ε) (k : ℤ) :
    ((u ^ k : Rˣ) : R) = 1 + k * ε := by
  obtain ⟨j, rfl | rfl⟩ := k.eq_nat_or_neg
  case inl => rw [zpow_natCast, Units.val_pow_eq_pow_val, hu, pow_eq h, Int.cast_natCast]
  case inr =>
    have hneg : -ε * -ε = 0 := by rw [neg_mul_neg, h]
    rw [zpow_neg, zpow_natCast, ← inv_pow, Units.val_pow_eq_pow_val, hinv, sub_eq_add_neg,
      pow_eq hneg, Int.cast_neg, Int.cast_natCast, mul_neg, neg_mul]

section Residues

variable {n : ℕ}

-- What is 1 modulo `n` has an order modulo `n * n` that divides `n`.
theorem pow_eq_one_of_unitsMap (hn : n ≠ 0) {u : (ZMod (n * n))ˣ}
    (h : ZMod.unitsMap (dvd_mul_right n n) u = 1) : u ^ n = 1 := by
  have : NeZero (n * n) := ⟨mul_ne_zero hn hn⟩
  have hcast : (((u : ZMod (n * n)).val : ℤ) : ZMod n) = ((1 : ℤ) : ZMod n) := by
    have hval := congrArg Units.val h
    rw [ZMod.unitsMap_val] at hval
    rw [Int.cast_natCast, ZMod.natCast_val, hval, Units.val_one, Int.cast_one]
  obtain ⟨j, hj⟩ := (ZMod.intCast_eq_intCast_iff_dvd_sub _ _ _).mp hcast.symm
  have hu : (u : ZMod (n * n)) = 1 + n * j := by
    rw [← ZMod.natCast_zmod_val (u : ZMod (n * n)), ← Int.cast_natCast, eq_add_of_sub_eq' hj]
    push_cast
    rfl
  have hsq : (n : ZMod (n * n)) * n = 0 := by rw [← Nat.cast_mul, ZMod.natCast_self]
  have hzero : (n * j * (n * j) : ZMod (n * n)) = 0 := by
    linear_combination (j * j : ZMod (n * n)) * hsq
  ext
  rw [Units.val_pow_eq_pow_val, hu, pow_eq hzero, Units.val_one]
  linear_combination (j : ZMod (n * n)) * hsq

theorem sq_pow_eq_one {k : ℕ} (hn : n ≠ 0) (hk : ∀ u : (ZMod n)ˣ, (u ^ 2) ^ k = 1)
    (u : (ZMod (n * n))ˣ) : (u ^ 2) ^ (k * n) = 1 := by
  rw [pow_mul]
  apply pow_eq_one_of_unitsMap hn
  rw [map_pow, map_pow, hk]

end Residues

end Paillier
