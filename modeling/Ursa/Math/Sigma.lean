import Mathlib.Algebra.BigOperators.GroupWithZero.Action
import Mathlib.Algebra.Field.Basic
import Mathlib.Algebra.Group.Subgroup.Basic
import Mathlib.Algebra.Module.Basic
import Mathlib.Tactic.Module

-- Σ-protocols: an honest answer leads back to the commitment, and two answers to one commitment
-- under two challenges give the secret away.
namespace Sigma

section Linear

variable {F M : Type} [Field F] [AddCommGroup M] [Module F M] {c c' : F} {x v v' w : M}

-- In a group of prime order the differences of the responses are divided by that of the
-- challenges.
theorem extract_linear (hc : c ≠ c') (hw : (c - c') • w = v' - v)
    (h : c • x + v = c' • x + v') : x = w := by
  have hx : (c - c') • x = v' - v := by
    rw [sub_smul, sub_eq_sub_iff_add_eq_add, h, add_comm]
  exact smul_right_injective M (sub_ne_zero.mpr hc) (hx.trans hw.symm)

-- Two linear equations over a common left side leave a relation between the bases, which is
-- trivial only if the coefficients agree.
theorem relation (g h : M) {a b a' b' r : F} (hx : x = a • g + b • h)
    (h₀ : r • x - a' • g - b' • h = 0) : (r * a - a') • g + (r * b - b') • h = 0 := by
  subst hx
  rw [← h₀]
  module

end Linear

section Power

variable {G : Type} [CommGroup G] {H : Subgroup G} {c c' : ℤ} {x v v' w : G}

theorem complete_power (h : v / v' = x ^ c) : (x ^ c)⁻¹ * v = v' := by
  rw [inv_mul_eq_iff_eq_mul, ← h, div_mul_cancel]

-- The same for a product whose two factors are answered apart.
theorem complete_product (a m b d : G) : a * m * ((b * a)⁻¹ * (b * d)) = m * d := by
  rw [mul_left_comm, inv_mul_eq_iff_eq_mul]
  ac_rfl

-- In a group of unknown order the quotient of the exponents is taken among the integers, and the
-- power `c - c'` has to be injective where the elements live.
theorem extract_power (hinj : Set.InjOn (· ^ (c - c')) (H : Set G)) (hx : x ∈ H) (hw : w ∈ H)
    (hv : v / v' = w ^ (c - c')) (h : (x ^ c)⁻¹ * v = (x ^ c')⁻¹ * v') : x = w := by
  refine hinj hx hw ?_
  have hq : v / v' = x ^ c / x ^ c' := by
    rw [inv_mul_eq_iff_eq_mul] at h
    rw [h, ← mul_assoc, mul_div_cancel_right, div_eq_mul_inv]
  calc x ^ (c - c')
    _ = x ^ c / x ^ c' := by rw [zpow_sub, div_eq_mul_inv]
    _ = w ^ (c - c')   := hq.symm.trans hv

end Power
end Sigma
