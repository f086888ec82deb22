import Ursa.Cl.Types

namespace Ursa.Predicate

variable {p : Predicate} {x : ℤ}

-- What a predicate says of an attribute value.
def Holds (p : Predicate) (x : ℤ) : Prop :=
  match p.pType with
  | .GE => p.value.toInt ≤ x
  | .GT => p.value.toInt < x
  | .LE => x ≤ p.value.toInt
  | .LT => x < p.value.toInt

instance : Decidable (p.Holds x) := by
  unfold Holds
  cases p.pType <;> infer_instance

-- The bound of a strict comparison is the next value, which has to fit an `i32` too.
def NoOverflow (p : Predicate) : Prop :=
  match p.pType with
  | .GE | .LE => True
  | .GT       => p.value.toInt ≠ 2 ^ 31 - 1
  | .LT       => p.value.toInt ≠ -2 ^ 31

instance : Decidable p.NoOverflow := by
  unfold NoOverflow
  cases p.pType <;> infer_instance

-- The difference that `get_delta` is about, without the bounds of `i32`.
def delta (p : Predicate) (x : ℤ) : ℤ :=
  match p.pType with
  | .GE => x - p.value.toInt
  | .GT => x - p.value.toInt - 1
  | .LE => p.value.toInt - x
  | .LT => p.value.toInt - x - 1

-- The difference is in the range of `i32`.
def Fits (p : Predicate) (x : ℤ) : Prop :=
  -2 ^ 31 ≤ p.delta x ∧ p.delta x < 2 ^ 31

instance : Decidable (p.Fits x) :=
  inferInstanceAs (Decidable (_ ∧ _))

theorem delta_nonneg_iff : 0 ≤ p.delta x ↔ p.Holds x := by
  unfold delta Holds
  cases p.pType <;> dsimp only <;> omega

theorem toInt_getDelta_eq_bmod (p : Predicate) (a : Int32) :
    (p.getDelta a).toInt = (p.delta a.toInt).bmod (2 ^ 32) := by
  unfold getDelta delta
  cases p.pType <;> simp

theorem delta_bounds (p : Predicate) (a : Int32) :
    -2 ^ 32 ≤ p.delta a.toInt ∧ p.delta a.toInt < 2 ^ 32 := by
  have := p.value.toInt_lt
  have := p.value.le_toInt
  have := a.toInt_lt
  have := a.le_toInt
  unfold delta
  cases p.pType <;> dsimp only <;> omega

theorem getDelta_eq_iff (p : Predicate) (a : Int32) :
    (p.getDelta a).toInt = p.delta a.toInt ↔ p.Fits a.toInt := by
  rw [toInt_getDelta_eq_bmod, Int.bmod_def, Fits]
  have := delta_bounds p a
  split <;> omega

theorem getDelta_sign_iff (p : Predicate) (a : Int32) :
    (0 ≤ (p.getDelta a).toInt ↔ p.Holds a.toInt) ↔ p.Fits a.toInt := by
  rw [toInt_getDelta_eq_bmod, Int.bmod_def, ← delta_nonneg_iff, Fits]
  have := delta_bounds p a
  split <;> omega

-- The bound that is proved: `a = d + delta`, or `a = d - delta`.
def bound (p : Predicate) (x : ℤ) : ℤ :=
  if p.isLess then x + p.delta x else x - p.delta x

theorem getDeltaPrime_eq_iff (p : Predicate) (x : ℤ) :
    p.getDeltaPrime = p.bound x ↔ p.NoOverflow := by
  have hlt := p.value.toInt_lt
  have hle := p.value.le_toInt
  have hone : (1 : Int32).toInt = 1 := rfl
  unfold bound isLess delta getDeltaPrime NoOverflow
  cases p.pType <;> dsimp only [Bool.false_eq_true, if_false, if_true]
  case GE => simp
  case LE => simp
  case GT =>
    change (p.value + 1).toInt = x - (x - p.value.toInt - 1) ↔ p.value.toInt ≠ 2 ^ 31 - 1
    rw [Int32.toInt_add, hone, Int.bmod_def]
    split <;> omega
  case LT =>
    change (p.value - 1).toInt = x + (p.value.toInt - x - 1) ↔ p.value.toInt ≠ -2 ^ 31
    rw [Int32.toInt_sub, hone, Int.bmod_def]
    split <;> omega

-- How far `x` is inside of the bound.
def distance (p : Predicate) (x : ℤ) : ℤ :=
  if p.isLess then p.getDeltaPrime - x else x - p.getDeltaPrime

theorem distance_eq_delta (h : p.NoOverflow) : p.distance x = p.delta x := by
  rw [distance, (getDeltaPrime_eq_iff p x).mpr h, bound]
  cases p.isLess
  · exact sub_sub_cancel x _
  · exact add_sub_cancel_left x _

theorem distance_nonneg_iff (h : p.NoOverflow) : 0 ≤ p.distance x ↔ p.Holds x := by
  rw [distance_eq_delta h, delta_nonneg_iff]

-- The value is inside of the bound, and the arithmetic of `i32` is exact.
structure Satisfied (p : Predicate) (x : ℤ) : Prop where
  holds : p.Holds x
  le_value : -2 ^ 31 ≤ x
  value_lt : x < 2 ^ 31
  bound : p.NoOverflow
  distance_lt : p.distance x < 2 ^ 31

instance : Decidable (p.Satisfied x) :=
  decidable_of_iff
    (p.Holds x ∧ -2 ^ 31 ≤ x ∧ x < 2 ^ 31 ∧ p.NoOverflow ∧ p.distance x < 2 ^ 31)
    ⟨fun ⟨h₁, h₂, h₃, h₄, h₅⟩ => ⟨h₁, h₂, h₃, h₄, h₅⟩,
      fun ⟨h₁, h₂, h₃, h₄, h₅⟩ => ⟨h₁, h₂, h₃, h₄, h₅⟩⟩

theorem toInt_ofInt (hle : -2 ^ 31 ≤ x) (hlt : x < 2 ^ 31) : (Int32.ofInt x).toInt = x := by
  rw [Int32.toInt_ofInt, Int.bmod_eq_of_le] <;> simp <;> omega

theorem Satisfied.fits (h : p.Satisfied x) : p.Fits x := by
  have hnonneg := delta_nonneg_iff.mpr h.holds
  have hlt := h.distance_lt
  rw [distance_eq_delta h.bound] at hlt
  exact ⟨by omega, hlt⟩

theorem toInt_getDelta (h : p.Satisfied x) : (p.getDelta (Int32.ofInt x)).toInt = p.distance x := by
  have hx := toInt_ofInt h.le_value h.value_lt
  have hfits : p.Fits (Int32.ofInt x).toInt := by rw [hx]; exact h.fits
  rw [(getDelta_eq_iff p _).mpr hfits, hx, distance_eq_delta h.bound]

end Ursa.Predicate
