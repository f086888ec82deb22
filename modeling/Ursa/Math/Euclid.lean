import Mathlib.Algebra.Order.Ring.Abs
import Mathlib.Algebra.Ring.Parity
import Mathlib.Data.Int.GCD
import Mathlib.Tactic.Linarith
import Mathlib.Tactic.LinearCombination
import Mathlib.Tactic.Ring

-- The extended Euclidean algorithm over the integers, with a division that rounds towards zero.
namespace Euclid

-- Two consecutive remainders, and the coefficients of the second number in them.
structure State where
  t : ℤ
  newT : ℤ
  r : ℤ
  newR : ℤ
  deriving DecidableEq

variable {s : State} {n a : ℤ}

def step (s : State) : State :=
  let quotient := s.r.tdiv s.newR
  { t := s.newT
    newT := s.t - quotient * s.newT
    r := s.newR
    newR := s.r - quotient * s.newR }

theorem step_newR (s : State) : (step s).newR = s.r.tmod s.newR := by
  rw [Int.tmod_def, mul_comm]
  rfl

theorem step_newR_natAbs (s : State) : (step s).newR.natAbs = s.r.natAbs % s.newR.natAbs := by
  rw [step_newR, Int.natAbs_tmod]

def run (s : State) : State :=
  if s.newR = 0 then s else run (step s)
termination_by s.newR.natAbs
decreasing_by
  rw [step_newR_natAbs]
  exact Nat.mod_lt _ (Int.natAbs_pos.mpr ‹_›)

-- The number of divisions until the remainder is zero.
def steps (r newR : ℕ) : ℕ :=
  if newR = 0 then 0 else steps newR (r % newR) + 1
termination_by newR
decreasing_by exact Nat.mod_lt _ (Nat.pos_of_ne_zero ‹_›)

theorem run_invariant {I : State → Prop} (hstep : ∀ s, s.newR ≠ 0 → I s → I (step s)) (h : I s) :
    I (run s) := by
  fun_induction run s
  case case1 s hzero => exact h
  case case2 s hne hi => exact hi <| hstep s hne h

def start (n a : ℤ) : State where
  t := 0
  newT := 1
  r := n
  newR := a

section Sign

variable {ε σ : ℤ}

-- The last remainder is the greatest common divisor up to its sign. With a second number of the
-- other sign, `ε = -1`, every division changes the sign of the remainder.
theorem run_r (hε : ε * ε = 1) (hσ : σ * σ = 1) (hr : s.r = σ * s.r.natAbs)
    (hnewR : s.newR = ε * σ * s.newR.natAbs) :
    (run s).r = ε ^ steps s.r.natAbs s.newR.natAbs * σ * Int.gcd s.r s.newR := by
  fun_induction run s generalizing σ
  case case1 s hzero =>
    rw [hzero, Int.gcd_zero_right, Int.natAbs_zero, steps, if_pos rfl, pow_zero, one_mul]
    exact hr
  case case2 s hne hi =>
    have hnat : s.newR.natAbs ≠ 0 := Int.natAbs_ne_zero.mpr hne
    have hσ' : ε * σ * (ε * σ) = 1 := by linear_combination hε * σ * σ + hσ
    have hmod : (step s).newR = σ * (step s).newR.natAbs := by
      rw [step_newR]
      obtain rfl | rfl := mul_self_eq_one_iff.mp hσ
      case inl =>
        have hnonneg : 0 ≤ s.r := by omega
        have := Int.tmod_nonneg s.newR hnonneg
        omega
      case inr =>
        have hnonneg : 0 ≤ -s.r := by omega
        have := Int.tmod_nonneg s.newR hnonneg
        rw [Int.neg_tmod] at this
        omega
    have hnewR' : (step s).newR = ε * (ε * σ) * (step s).newR.natAbs := by
      rw [← mul_assoc, hε, one_mul]
      exact hmod
    have hgcd : Int.gcd s.newR (step s).newR = Int.gcd s.r s.newR := by
      rw [Int.gcd_def, Int.gcd_def, step_newR_natAbs, Nat.gcd_comm, ← Nat.gcd_rec, Nat.gcd_comm]
    have hrun := hi hσ' hnewR hnewR'
    have hstep : (step s).r = s.newR := rfl
    rw [hrun, hstep, hgcd, step_newR_natAbs]
    conv_rhs => rw [steps, if_neg hnat, pow_succ, mul_assoc _ ε σ]

end Sign

-- The remainder of a division with rest has the sign of the dividend, and so has what is taken
-- away from the dividend.
theorem mul_tmod_nonneg (r q : ℤ) : 0 ≤ r * r.tmod q := by
  obtain hr | hr := le_total 0 r
  case inl => exact mul_nonneg hr <| Int.tmod_nonneg q hr
  case inr =>
    have hneg := Int.tmod_nonneg q (neg_nonneg.mpr hr)
    rw [Int.neg_tmod] at hneg
    exact mul_nonneg_of_nonpos_of_nonpos hr <| neg_nonneg.mp hneg

theorem mul_tmod_le (r q : ℤ) : r * r.tmod q ≤ r * r := by
  have hle : |r.tmod q| ≤ |r| := by
    rw [Int.abs_eq_natAbs, Int.abs_eq_natAbs, Int.natAbs_tmod]
    exact_mod_cast Nat.mod_le _ _
  calc r * r.tmod q ≤ |r * r.tmod q| := le_abs_self _
    _ = |r| * |r.tmod q| := abs_mul ..
    _ ≤ |r| * |r| := mul_le_mul_of_nonneg_left hle <| abs_nonneg r
    _ = r * r := abs_mul_abs_self r

-- What the coefficients keep: they give the remainders modulo `n`, and they stay small, since in
-- the determinant of a state the two products do not cancel.
structure Invariant (n a : ℤ) (s : State) : Prop where
  r_ne : s.r ≠ 0
  dvd : n ∣ s.t * a - s.r
  dvd_new : n ∣ s.newT * a - s.newR
  det : |s.newT * s.r - s.t * s.newR| = n
  sign : s.newT * s.r * (s.t * s.newR) ≤ 0
  t_le : |s.t| ≤ n

theorem Invariant.start (hn : 0 < n) (a : ℤ) : Invariant n a (Euclid.start n a) where
  r_ne := hn.ne'
  dvd := ⟨-1, by simp [Euclid.start]⟩
  dvd_new := ⟨0, by simp [Euclid.start]⟩
  det := by simp [Euclid.start, abs_of_pos hn]
  sign := by simp [Euclid.start]
  t_le := by simp [Euclid.start, hn.le]

theorem Invariant.newT_le (h : Invariant n a s) : |s.newT| ≤ n := by
  have hprod : |s.newT * s.r| ≤ n := by
    rw [← h.det]
    obtain ⟨hx, hy⟩ | ⟨hx, hy⟩ := mul_nonpos_iff.mp h.sign
    case inl =>
      rw [abs_of_nonneg hx, abs_of_nonneg <| sub_nonneg.mpr <| hy.trans hx]
      omega
    case inr =>
      rw [abs_of_nonpos hx, abs_of_nonpos <| sub_nonpos.mpr <| hx.trans hy]
      omega
  calc |s.newT| = |s.newT| * 1 := (mul_one _).symm
    _ ≤ |s.newT| * |s.r| := mul_le_mul_of_nonneg_left (Int.one_le_abs h.r_ne) <| abs_nonneg _
    _ = |s.newT * s.r| := (abs_mul ..).symm
    _ ≤ n := hprod

theorem Invariant.step (hne : s.newR ≠ 0) (h : Invariant n a s) : Invariant n a (Euclid.step s) where
  r_ne := hne
  dvd := h.dvd_new
  dvd_new := by
    have hdvd := Int.dvd_sub h.dvd (h.dvd_new.mul_left (s.r.tdiv s.newR))
    convert hdvd using 1
    simp only [Euclid.step]
    ring
  det := by
    rw [← h.det, ← abs_neg]
    congr 1
    simp only [Euclid.step]
    ring
  sign := by
    -- Both sides are multiplied by the square of the last remainder.
    have hrest := mul_tmod_nonneg s.r s.newR
    have htaken : 0 ≤ s.r * (s.r - s.r.tmod s.newR) := by
      linarith [mul_tmod_le s.r s.newR]
    have hfirst := mul_nonneg_of_nonpos_of_nonpos h.sign (neg_nonpos.mpr hrest)
    have hsecond := mul_nonneg (mul_nonneg htaken hrest) (mul_self_nonneg s.newT)
    have hdiv : s.r.tdiv s.newR * s.newR = s.r - s.r.tmod s.newR := by
      rw [Int.tmod_def]
      ring
    have hsq : 0 < s.r * s.r := mul_self_pos.mpr h.r_ne
    refine le_of_mul_le_mul_right (a := s.r * s.r) ?_ hsq
    rw [step_newR]
    simp only [Euclid.step]
    linear_combination hfirst + hsecond - s.newT * s.newT * s.r.tmod s.newR * s.r * s.r * hdiv
  t_le := h.newT_le

theorem Invariant.run (hn : 0 < n) (a : ℤ) : Invariant n a (Euclid.run (Euclid.start n a)) :=
  run_invariant (fun _ => Invariant.step) <| Invariant.start hn a

section Coefficient

-- With a negative second number, an odd number of divisions ends with a negative remainder.
def Flipped (n a : ℤ) : Prop :=
  a < 0 ∧ Odd (steps n.natAbs a.natAbs)

instance : Decidable (Flipped n a) :=
  inferInstanceAs (Decidable (_ ∧ _))

theorem not_flipped_of_nonneg (ha : 0 ≤ a) : ¬Flipped n a :=
  fun h => absurd h.left ha.not_gt

theorem run_start_r (hn : 0 < n) (a : ℤ) :
    (Euclid.run (start n a)).r = if Flipped n a then -(Int.gcd a n : ℤ) else Int.gcd a n := by
  have hr : (start n a).r = 1 * (start n a).r.natAbs := by
    simp only [start]
    omega
  rw [Int.gcd_comm]
  obtain ha | ha := lt_or_ge a 0
  case inl =>
    have hnewR : (start n a).newR = -1 * 1 * (start n a).newR.natAbs := by
      simp only [start]
      omega
    rw [run_r (ε := -1) (by norm_num) (by norm_num) hr hnewR, mul_one]
    by_cases hodd : Odd (steps n.natAbs a.natAbs)
    case pos => rw [if_pos ⟨ha, hodd⟩, start, hodd.neg_one_pow, neg_one_mul]
    case neg =>
      rw [if_neg fun h => hodd h.right, start, (Nat.not_odd_iff_even.mp hodd).neg_one_pow, one_mul]
  case inr =>
    have hnewR : (start n a).newR = 1 * 1 * (start n a).newR.natAbs := by
      simp only [start]
      omega
    rw [run_r (ε := 1) (by norm_num) (by norm_num) hr hnewR, one_pow, one_mul, one_mul,
      if_neg <| not_flipped_of_nonneg ha]
    rfl

-- A coefficient of a unit is a residue once `n` is added to a negative one.
theorem Invariant.residue (h : Invariant n a s) (hn : 1 < n) (hr : |s.r| = 1) :
    -n < s.t ∧ s.t < n := by
  have hle := abs_le.mp h.t_le
  have hndvd : ¬n ∣ s.t := by
    intro hdvd
    have hr' : n ∣ s.r := (Int.dvd_iff_dvd_of_dvd_sub h.dvd).mp <| hdvd.mul_right a
    have := Int.le_of_dvd one_pos <| hr ▸ (dvd_abs n s.r).mpr hr'
    omega
  refine ⟨lt_of_le_of_ne hle.left ?_, lt_of_le_of_ne hle.right ?_⟩
  · intro heq
    exact hndvd ⟨-1, by omega⟩
  · intro heq
    exact hndvd ⟨1, by omega⟩

end Coefficient
end Euclid
