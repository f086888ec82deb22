import Mathlib.Algebra.Group.Basic
import Mathlib.RingTheory.Coprime.Basic

-- Answers in a group whose order the prover does not know. All exponents are doubled, and the
-- squares have an order that is prime to the difference `c - c'` of two challenges.
namespace SquareSigma

variable {G : Type*} [CommGroup G] {k : ℕ} {c c' r r' s s' d : ℤ} {x y g u v e h : G}

-- The power `d` of a square tells the square.
theorem sq_eq_of_zpow_eq (hk : ∀ x : G, (x ^ 2) ^ k = 1) (hd : IsCoprime d k)
    (h : (x ^ 2) ^ d = (y ^ 2) ^ d) : x ^ 2 = y ^ 2 := by
  obtain ⟨a, b, hab⟩ := hd
  have hzero : ((x / y) ^ 2) ^ d = 1 := by
    rw [div_pow, div_zpow, h, div_self']
  have hone : (x / y) ^ 2 = 1 :=
    calc (x / y) ^ 2
      _ = ((x / y) ^ 2) ^ (a * d + b * k)                   := by rw [hab, zpow_one]
      _ = (((x / y) ^ 2) ^ d) ^ a * (((x / y) ^ 2) ^ k) ^ b := by
        rw [zpow_add, mul_comm a, mul_comm b, zpow_mul, zpow_mul, zpow_natCast]
      _ = 1                                                 := by
        rw [hzero, hk, one_zpow, one_zpow, one_mul]
  rwa [div_pow, div_eq_one] at hone

theorem zpow_two_mul (x : G) (k : ℤ) : x ^ (2 * k) = (x ^ 2) ^ k := by
  rw [zpow_mul, zpow_ofNat]

-- Two answers with one commitment.
theorem sq_zpow_sub (h : u ^ (2 * c) * g ^ (2 * r) = u ^ (2 * c') * g ^ (2 * r')) :
    (u ^ 2) ^ (c - c') = (g ^ 2) ^ (r' - r) := by
  simp only [zpow_two_mul] at h
  rw [zpow_sub, zpow_sub, ← div_eq_mul_inv, ← div_eq_mul_inv, div_eq_div_iff_mul_eq_mul, h, mul_comm]

-- With two answers for `u` over `g` and for `v` over a power of `g`, `v` is that power of `u` but for
-- what squaring loses.
theorem sq_eq_zpow (hk : ∀ x : G, (x ^ 2) ^ k = 1) (hd : IsCoprime (c - c') k) (a : ℤ)
    (hu : u ^ (2 * c) * g ^ (2 * r) = u ^ (2 * c') * g ^ (2 * r'))
    (hv : v ^ (2 * c) * (g ^ a) ^ (2 * r) = v ^ (2 * c') * (g ^ a) ^ (2 * r')) :
    v ^ 2 = (u ^ a) ^ 2 := by
  apply sq_eq_of_zpow_eq hk hd
  calc (v ^ 2) ^ (c - c')
    _ = ((g ^ a) ^ 2) ^ (r' - r)   := sq_zpow_sub hv
    _ = ((g ^ 2) ^ (r' - r)) ^ a   := by
      simp only [← zpow_natCast, ← zpow_mul]
      ring_nf
    _ = ((u ^ 2) ^ (c - c')) ^ a   := by rw [sq_zpow_sub hu]
    _ = ((u ^ a) ^ 2) ^ (c - c')   := by
      simp only [← zpow_natCast, ← zpow_mul]
      ring_nf

-- The same with a message in front of `h`: the difference of its answers is `m` times that of the
-- challenges.
theorem sq_eq_zpow_mul (hk : ∀ x : G, (x ^ 2) ^ k = 1) (hd : IsCoprime (c - c') k) (a m : ℤ)
    (hu : u ^ (2 * c) * g ^ (2 * r) = u ^ (2 * c') * g ^ (2 * r'))
    (he : e ^ (2 * c) * (g ^ a) ^ (2 * r) * h ^ (2 * s) =
      e ^ (2 * c') * (g ^ a) ^ (2 * r') * h ^ (2 * s'))
    (hm : h ^ (s' - s) = h ^ ((c - c') * m)) : (e * (u ^ a)⁻¹) ^ 2 = (h ^ m) ^ 2 := by
  have hmessage (c r : ℤ) : (e * (h ^ m)⁻¹) ^ (2 * c) * (g ^ a) ^ (2 * r) =
      e ^ (2 * c) * (g ^ a) ^ (2 * r) / (h ^ (c * m)) ^ 2 := by
    have hpower : (h ^ m) ^ (2 * c) = (h ^ (c * m)) ^ 2 := by
      rw [← zpow_natCast, ← zpow_mul, ← zpow_mul]
      ring_nf
    rw [mul_zpow, inv_zpow, hpower, mul_right_comm, div_eq_mul_inv]
  have hanswer : e ^ (2 * c) * (g ^ a) ^ (2 * r) =
      e ^ (2 * c') * (g ^ a) ^ (2 * r') * (h ^ ((c - c') * m)) ^ 2 := by
    rw [zpow_two_mul h, zpow_two_mul h] at he
    rw [← hm, zpow_sub, ← div_eq_mul_inv, div_pow, ← mul_div_assoc, eq_div_iff_mul_eq']
    simpa only [← zpow_natCast, ← zpow_mul, mul_comm] using he
  have hmoved : (e * (h ^ m)⁻¹) ^ (2 * c) * (g ^ a) ^ (2 * r) =
      (e * (h ^ m)⁻¹) ^ (2 * c') * (g ^ a) ^ (2 * r') := by
    have hexponent : h ^ (c * m) = h ^ ((c - c') * m) * h ^ (c' * m) := by
      rw [← zpow_add, ← add_mul, sub_add_cancel]
    rw [hmessage, hmessage, hanswer, hexponent, mul_pow, mul_comm (_ ^ 2), mul_div_mul_right_eq_div]
  have hsq := sq_eq_zpow hk hd a hu hmoved
  rw [mul_pow, inv_pow, mul_inv_eq_iff_eq_mul] at hsq ⊢
  rw [hsq, mul_comm]

end SquareSigma
