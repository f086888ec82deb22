import Mathlib.Data.Int.Interval
import Mathlib.Probability.Distributions.Uniform

-- The statistical distance of two distributions.
namespace StatDist

open Finset

variable {α β ι : Type}

noncomputable def statDist (p q : PMF α) : ℝ :=
  (tsum fun x => |(p x).toReal - (q x).toReal|) / 2

-- A draw of a number in `[0, N)`, each with the same probability.
def Uniform [Fintype ι] (value : ι → ℤ) : Prop :=
  univ.image value = Ico 0 (Fintype.card ι : ℤ)

theorem Uniform.injective [Fintype ι] {value : ι → ℤ} (h : Uniform value) :
    Function.Injective value := by
  have hcard : #(univ.image value) = #(univ : Finset ι) := by rw [h]; simp
  simpa using card_image_iff.mp hcard

-- The distribution of `f` over a uniform draw.
noncomputable def drawn [Fintype ι] [Nonempty ι] (f : ι → α) : PMF α :=
  (PMF.uniformOfFintype ι).map f

variable [Fintype ι] [Nonempty ι] {f g : ι → α}

theorem drawn_apply [DecidableEq α] (hf : Function.Injective f) (x : α) :
    (drawn f x).toReal = if x ∈ univ.image f then (Fintype.card ι : ℝ)⁻¹ else 0 := by
  rw [drawn, PMF.map_apply]
  split
  case isTrue h =>
    obtain ⟨i, -, rfl⟩ := mem_image.mp h
    rw [tsum_eq_single i]
    · simp
    · intro j hj
      exact if_neg fun heq => hj (hf heq).symm
  case isFalse h =>
    have hne : ∀ i, x ≠ f i := fun i heq => h <| mem_image.mpr ⟨i, mem_univ _, heq.symm⟩
    simp [hne]

-- Two uniform distributions over sets of the same size differ by what one set has and the other
-- has not.
theorem statDist_drawn [DecidableEq α] (hf : Function.Injective f) (hg : Function.Injective g) :
    statDist (drawn f) (drawn g) = #(univ.image f \ univ.image g) / Fintype.card ι := by
  let A := univ.image f
  let B := univ.image g
  have hpoint : ∀ x, |(drawn f x).toReal - (drawn g x).toReal| =
      if x ∈ symmDiff A B then (Fintype.card ι : ℝ)⁻¹ else 0 := by
    intro x
    rw [drawn_apply hf, drawn_apply hg]
    by_cases hA : x ∈ univ.image f <;> by_cases hB : x ∈ univ.image g <;>
      simp [A, B, hA, hB, mem_symmDiff]
  have hcard : #(B \ A) = #(A \ B) := by
    refine card_sdiff_comm ?_
    rw [card_image_of_injective _ hg, card_image_of_injective _ hf]
  have hsymm : #(symmDiff A B) = #(A \ B) + #(B \ A) :=
    card_union_of_disjoint disjoint_sdiff_sdiff
  rw [statDist, tsum_congr hpoint, tsum_eq_sum fun x hx => if_neg hx,
    sum_congr rfl fun x hx => if_pos hx, sum_const, hsymm, hcard, nsmul_eq_mul]
  push_cast
  ring

theorem card_Ico_sdiff (a b : ℤ) (N : ℕ) :
    #(Ico a (a + N) \ Ico b (b + N)) = min (a - b).natAbs N := by
  cases le_total a b
  case inl h =>
    have hset : Ico a (a + N) \ Ico b (b + N) = Ico a (min b (a + N)) := by
      ext x
      simp only [mem_sdiff, mem_Ico]
      omega
    rw [hset, Int.card_Ico]
    omega
  case inr h =>
    have hset : Ico a (a + N) \ Ico b (b + N) = Ico (max a (b + N)) (a + N) := by
      ext x
      simp only [mem_sdiff, mem_Ico]
      omega
    rw [hset, Int.card_Ico]
    omega

-- Masking by a uniform draw: the distance of two masked secrets is that of the secrets, in units
-- of the range of the draw.
theorem statDist_mask {value : ι → ℤ} {reveal : ℤ → α} (h : Uniform value)
    (hr : Function.Injective reveal) (a b : ℤ) :
    statDist (drawn fun i => reveal (a + value i)) (drawn fun i => reveal (b + value i)) =
      (min (a - b).natAbs (Fintype.card ι) : ℕ) / Fintype.card ι := by
  classical
  have hinj (x : ℤ) : Function.Injective fun i => reveal (x + value i) :=
    hr.comp <| (add_right_injective x).comp h.injective
  have himage (x : ℤ) : (univ.image fun i => reveal (x + value i)) =
      (Ico x (x + Fintype.card ι)).image reveal := by
    have hshift : (univ.image value).image (x + ·) = Ico x (x + Fintype.card ι) := by
      rw [h, image_add_left_Ico, add_zero]
    rw [← hshift, image_image, image_image]
    rfl
  rw [statDist_drawn (hinj a) (hinj b), himage, himage, ← image_sdiff _ _ hr,
    card_image_of_injective _ hr, card_Ico_sdiff]

theorem statDist_mask_le_iff {value : ι → ℤ} {reveal : ℤ → α} (h : Uniform value)
    (hr : Function.Injective reveal) (a b : ℤ) {k : ℕ} (hk : k ≠ 0) :
    statDist (drawn fun i => reveal (a + value i)) (drawn fun i => reveal (b + value i)) ≤
      1 / 2 ^ k ↔ 2 ^ k * (a - b).natAbs ≤ Fintype.card ι := by
  have hpos : 0 < Fintype.card ι := Fintype.card_pos
  have hpos' : (0 : ℝ) < Fintype.card ι := Nat.cast_pos.mpr hpos
  have htwo : 1 < 2 ^ k := Nat.one_lt_two_pow hk
  rw [statDist_mask h hr, div_le_div_iff₀ hpos' (by positivity), one_mul, mul_comm]
  norm_cast
  constructor
  case mpr => exact fun hle => (Nat.mul_le_mul_left _ <| Nat.min_le_left _ _).trans hle
  case mp =>
    intro hle
    cases Nat.le_total (a - b).natAbs (Fintype.card ι)
    case inl hmin => rwa [Nat.min_eq_left hmin] at hle
    case inr hmin =>
      rw [Nat.min_eq_right hmin] at hle
      exact absurd hle <| Nat.not_le.mpr <| lt_mul_of_one_lt_left hpos htwo

theorem natAbs_sub_le {x y a : ℤ} {b : ℕ} (hx : a ≤ x ∧ x ≤ a + b) (hy : a ≤ y ∧ y ≤ a + b) :
    (x - y).natAbs ≤ b := by
  omega

-- Challenge times secret against the range of the draw, all counted in bits.
theorem two_pow_mul_natAbs_le {c x y : ℤ} (hc : c.natAbs ≤ 2 ^ i) (hxy : (x - y).natAbs ≤ 2 ^ j)
    (hk : k + (i + j) ≤ N) : 2 ^ k * (c * x - c * y).natAbs ≤ 2 ^ N :=
  calc 2 ^ k * (c * x - c * y).natAbs
    _ = 2 ^ k * (c.natAbs * (x - y).natAbs) := by rw [← mul_sub, Int.natAbs_mul]
    _ ≤ 2 ^ k * (2 ^ i * 2 ^ j)             := by gcongr
    _ = 2 ^ (k + (i + j))                   := by rw [pow_add, pow_add]
    _ ≤ 2 ^ N                               := Nat.pow_le_pow_right (by decide) hk

end StatDist
