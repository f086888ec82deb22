import Ursa.Bn
import Ursa.Math.Euclid

-- `bn/rust.rs`, the backend over `num-bigint`. Its `BigInt` is a signed integer of any size too.
namespace Ursa.Rust

open ModArith BigNumber

-- `BigInt::modpow`. Nothing is known of it for a negative base.
structure NumBigint where
  modpow : ℤ → ℤ → ℤ → UrsaCryptoResult ℤ
  modpow_eq : ∀ b e m, 0 ≤ b → 0 ≤ e → 0 < m → modpow b e m = .ok (b ^ e.toNat % m)

def modpow (b e m : ℤ) : UrsaCryptoResult ℤ :=
  if e < 0 then .error <| .panic "negative exponentiation is not supported!"
  else if m = 0 then .error <| .panic "divide by zero!"
  else .ok (Int.fmod (b ^ e.toNat) m)

theorem modpow_eq (b e m : ℤ) (_ : 0 ≤ b) (he : 0 ≤ e) (hm : 0 < m) :
    modpow b e m = .ok (b ^ e.toNat % m) := by
  rw [modpow, if_neg he.not_gt, if_neg hm.ne', Int.fmod_eq_emod_of_nonneg _ hm.le]

def NumBigint.exact : NumBigint where
  modpow := Rust.modpow
  modpow_eq := Rust.modpow_eq

def isNegative (self : BigNumber) : Bool :=
  self < 0

def setNegative (self : BigNumber) (negative : Bool) : BigNumber :=
  match decide (self < 0), negative with
  | true, true   => self
  | false, false => self
  | true, false  => -self
  | false, true  => -self

def increment (self : BigNumber) : BigNumber :=
  self + 1

def decrement (self : BigNumber) : BigNumber :=
  self - 1

def tryClone (self : BigNumber) : BigNumber :=
  self

def mul (self a : BigNumber) : UrsaCryptoResult BigNumber :=
  .ok (self * a)

def sub (self a : BigNumber) : UrsaCryptoResult BigNumber :=
  .ok (self - a)

def getModulus (bn : BigNumber) : BigNumber :=
  if 0 < bn then bn else -bn

-- `%` of `BigInt` rounds towards zero.
def modulus (self a : BigNumber) : UrsaCryptoResult BigNumber :=
  if a = 0 then .error <| .err .invalidState "Cannot have modulus==0"
  else .ok (Int.tmod self (getModulus a))

def modMul (self a n : BigNumber) : UrsaCryptoResult BigNumber := do
  let res ← mul self a
  modulus res n

def modSub (self a n : BigNumber) : UrsaCryptoResult BigNumber := do
  let res ← sub self a
  modulus res n

-- The loop divides with `/` of `BigInt`, which rounds towards zero.
def inverse (self n : BigNumber) : UrsaCryptoResult BigNumber :=
  if n = 1 ∨ n = 0 then .error <| .err .invalidState "Invalid modulus"
  else
    let n := getModulus n
    let last := Euclid.run { t := 0, newT := 1, r := n, newR := self }
    if 1 < last.r then .error <| .err .invalidState "Not invertible"
    else if last.t < 0 then .ok (last.t + n)
    else .ok last.t

-- `(a * (1/b mod p) mod p)`
def modDiv (self b p : BigNumber) : UrsaCryptoResult BigNumber := do
  let inv ← inverse b p
  let res ← mul self inv
  modulus res p

def modExp (lib : NumBigint) (self a b : BigNumber) : UrsaCryptoResult BigNumber :=
  if b = 1 then .ok 0
  else if isNegative a then do
    let res ← inverse self b
    lib.modpow res (setNegative a false) (getModulus b)
  else lib.modpow self a (getModulus b)

variable {a b n x : ℤ}

theorem getModulus_eq (n : ℤ) : getModulus n = n.natAbs := by
  unfold getModulus
  split
  case isTrue h => rw [Int.natAbs_of_nonneg h.le]
  case isFalse h => rw [Int.ofNat_natAbs_of_nonpos <| not_lt.mp h]

-- A residue in `[0, |n|)` of the class of `x`.
def IsResidue (n x y : ℤ) : Prop :=
  (0 ≤ y ∧ y < n.natAbs) ∧ n ∣ y - x

section Modulus

theorem modulus_ok (hn : n ≠ 0) (x : ℤ) : modulus x n = .ok (x.tmod n.natAbs) := by
  rw [modulus, if_neg hn, getModulus_eq]

theorem dvd_tmod_sub (n x : ℤ) : n ∣ x.tmod n.natAbs - x := by
  refine (Int.natAbs_dvd.mp ⟨-x.tdiv n.natAbs, ?_⟩ : n ∣ _)
  rw [Int.tmod_def]
  ring

theorem tmod_nonneg_iff : 0 ≤ x.tmod n.natAbs ↔ 0 ≤ x ∨ n ∣ x := by
  have hdvd : n ∣ x.tmod n.natAbs ↔ n ∣ x := (Int.dvd_iff_dvd_of_dvd_sub (dvd_tmod_sub n x))
  constructor
  case mp =>
    intro h
    by_contra hneg
    obtain ⟨hx, hndvd⟩ := not_or.mp hneg
    have hmod := Int.tmod_nonneg (n.natAbs : ℤ) (show 0 ≤ -x by omega)
    rw [Int.neg_tmod] at hmod
    refine hndvd <| hdvd.mp ?_
    rw [show x.tmod n.natAbs = 0 by omega]
    exact dvd_zero n
  case mpr =>
    rintro (hx | hx)
    · exact Int.tmod_nonneg _ hx
    · rw [Int.tmod_eq_zero_of_dvd <| Int.natAbs_dvd.mpr hx]

theorem tmod_lt (hn : n ≠ 0) (x : ℤ) : x.tmod n.natAbs < n.natAbs :=
  Int.tmod_lt_of_pos x <| by omega

theorem isResidue_tmod_iff (hn : n ≠ 0) {y : ℤ} :
    IsResidue n y (x.tmod n.natAbs) ↔ (0 ≤ x ∨ n ∣ x) ∧ n ∣ x - y := by
  have hclass : n ∣ x.tmod n.natAbs - y ↔ n ∣ x - y := by
    refine Int.dvd_iff_dvd_of_dvd_sub ?_
    rw [sub_sub_sub_cancel_right]
    exact dvd_tmod_sub n x
  rw [IsResidue, tmod_nonneg_iff, hclass, and_iff_left (tmod_lt hn x)]

end Modulus

section Inverse

theorem inverse_eq (hn : 1 < n.natAbs) (a : ℤ) :
    inverse a n = (let last := Euclid.run (Euclid.start n.natAbs a)
      if 1 < last.r then .error <| .err .invalidState "Not invertible"
      else if last.t < 0 then .ok (last.t + n.natAbs) else .ok last.t) := by
  have hinvalid : ¬(n = 1 ∨ n = 0) := by omega
  rw [inverse, if_neg hinvalid, getModulus_eq]
  rfl

theorem inverse_eq_ok (hn : 1 < n.natAbs) {last : Euclid.State}
    (hlast : Euclid.run (Euclid.start n.natAbs a) = last) (hr : last.r ≤ 1) :
    inverse a n = .ok (if last.t < 0 then last.t + n.natAbs else last.t : ℤ) := by
  rw [inverse_eq hn, hlast]
  exact (if_neg hr.not_gt).trans (apply_ite Except.ok ..).symm

theorem gcd_natAbs (a n : ℤ) : Int.gcd a n.natAbs = Int.gcd a n := by
  rw [Int.gcd_def, Int.gcd_def, Int.natAbs_natCast]

theorem natAbs_pos (hn : 1 < n.natAbs) : (0 : ℤ) < n.natAbs := by
  omega

-- With an odd number of divisions the loop finds the inverse of `-a`.
def sign (a n : ℤ) : ℤ :=
  if Euclid.Flipped n.natAbs a then -1 else 1

theorem run_start_r (hn : 1 < n.natAbs) (a : ℤ) :
    (Euclid.run (Euclid.start n.natAbs a)).r = sign a n * Int.gcd a n := by
  rw [Euclid.run_start_r (natAbs_pos hn), gcd_natAbs, sign]
  split
  · rw [neg_one_mul]
  · rw [one_mul]

theorem abs_sign (a n : ℤ) : |sign a n| = 1 := by
  unfold sign
  split <;> rfl

theorem inverse_error (hn : 1 < n.natAbs) (hflip : ¬Euclid.Flipped n.natAbs a)
    (hg : Int.gcd a n ≠ 1) : inverse a n = .error (.err .invalidState "Not invertible") := by
  have hpos : 0 < Int.gcd a n := Int.gcd_pos_of_ne_zero_right a <| ne_zero_of_one_lt hn
  have hr := run_start_r hn a
  rw [sign, if_neg hflip] at hr
  rw [inverse_eq hn]
  exact if_pos (by omega)

theorem inverse_ok_of_flipped (hn : 1 < n.natAbs) (hflip : Euclid.Flipped n.natAbs a) :
    ∃ x, inverse a n = .ok x := by
  have hr := run_start_r hn a
  rw [sign, if_pos hflip] at hr
  exact ⟨_, inverse_eq_ok hn rfl <| by omega⟩

theorem inverse_ok (hn : 1 < n.natAbs) (hg : Int.gcd a n = 1) :
    ∃ x : ℤ, inverse a n = .ok x ∧ (0 ≤ x ∧ x < n.natAbs) ∧ n ∣ a * x - sign a n := by
  have hr := run_start_r hn a
  have hinv := Euclid.Invariant.run (natAbs_pos hn) a
  generalize hlast : Euclid.run (Euclid.start n.natAbs a) = last at hr hinv
  rw [hg, Nat.cast_one, mul_one] at hr
  have habs : |last.r| = 1 := hr ▸ abs_sign a n
  obtain ⟨hlow, hhigh⟩ := hinv.residue (by omega) habs
  have hdvd : n ∣ a * last.t - sign a n := by
    rw [mul_comm, ← hr]
    exact Int.natAbs_dvd.mp hinv.dvd
  refine ⟨_, inverse_eq_ok hn hlast (habs ▸ le_abs_self _), ?_⟩
  split
  case isTrue hneg =>
    refine ⟨by omega, ?_⟩
    rw [mul_add, add_sub_right_comm]
    exact hdvd.add <| (Int.dvd_natAbs.mpr dvd_rfl).mul_left a
  case isFalse hneg => exact ⟨by omega, hdvd⟩

def InverseCorrect (a n : ℤ) : Prop :=
  ((∃ x, inverse a n = .ok x) ↔ Int.gcd a n = 1) ∧
    ∀ x : ℤ, inverse a n = .ok x → (0 ≤ x ∧ x < n.natAbs) ∧ n ∣ a * x - 1

-- After an odd number of divisions a result is right only where `-1` and `1` are one class.
theorem inverseCorrect_iff (hn : 1 < n.natAbs) :
    InverseCorrect a n ↔ (Euclid.Flipped n.natAbs a → Int.gcd a n = 1 ∧ n ∣ 2) := by
  constructor
  case mp =>
    intro ⟨hiff, hcorrect⟩ hflip
    have hg := hiff.mp <| inverse_ok_of_flipped hn hflip
    obtain ⟨x, hx, -, hdvd⟩ := inverse_ok hn hg
    have htwo := (hcorrect x hx).right.sub hdvd
    rw [sign, if_pos hflip, sub_sub_sub_cancel_left] at htwo
    exact ⟨hg, (dvd_neg (α := ℤ)).mp htwo⟩
  case mpr =>
    intro h
    have hresult (hg : Int.gcd a n = 1) (y : ℤ) (hy : inverse a n = .ok y) :
        (0 ≤ y ∧ y < n.natAbs) ∧ n ∣ a * y - 1 := by
      obtain ⟨x, hx, hrange, hdvd⟩ := inverse_ok hn hg
      obtain rfl : x = y := Except.ok.inj <| hx.symm.trans hy
      refine ⟨hrange, ?_⟩
      by_cases hflip : Euclid.Flipped n.natAbs a
      case pos =>
        have htwo := hdvd.sub (h hflip).right
        rwa [sign, if_pos hflip, show a * x - -1 - 2 = a * x - 1 by ring] at htwo
      case neg => rwa [sign, if_neg hflip] at hdvd
    by_cases hg : Int.gcd a n = 1
    case pos =>
      refine ⟨iff_of_true ?_ hg, hresult hg⟩
      exact (inverse_ok hn hg).imp fun _ hx => hx.left
    case neg =>
      have herr := inverse_error hn (fun hflip => hg (h hflip).left) hg
      refine ⟨iff_of_false ?_ hg, fun x hx => ?_⟩
      · rintro ⟨x, hx⟩
        cases herr.symm.trans hx
      · cases herr.symm.trans hx

theorem inverseCorrect_of_nonneg :
    InverseCorrect 3 7 :=
  (inverseCorrect_iff (by decide)).mpr <| by decide +kernel

-- `-1` is its own inverse, and `-2` has none.
theorem inverse_negative_wrong :
    inverse (-1) 5 = .ok 1 ∧ ¬InverseCorrect (-1) 5 ∧
      inverse (-2) 4 = .ok 1 ∧ ¬InverseCorrect (-2) 4 := by
  have hone : inverse (-1) 5 = .ok 1 := by decide +kernel
  have htwo : inverse (-2) 4 = .ok 1 := by decide +kernel
  refine ⟨hone, fun h => ?_, htwo, fun h => ?_⟩
  · exact absurd (h.right 1 hone).right <| by decide
  · exact absurd (h.left.mp ⟨1, htwo⟩) <| by decide

end Inverse

section Computes

variable {u w : (ZMod n.natAbs)ˣ} {e : ℤ}

theorem computes_inverse (hn : 1 < n.natAbs) (ha : 0 ≤ a) (hu : (a : ZMod n.natAbs) = u) :
    Computes n (inverse a n) u⁻¹ := by
  obtain ⟨x, hx, hrange, hdvd⟩ := inverse_ok hn <| isUnit_cast_iff.mp <| hu ▸ u.isUnit
  rw [sign, if_neg <| Euclid.not_flipped_of_nonneg ha] at hdvd
  refine ⟨x, hx, hrange, ?_⟩
  have hmul : ((a * x : ℤ) : ZMod n.natAbs) = (1 : ℤ) :=
    ((ZMod.intCast_eq_intCast_iff_dvd_sub ..).mpr <| Int.natAbs_dvd.mpr hdvd).symm
  rw [Int.cast_mul, hu, Int.cast_one] at hmul
  exact (Units.inv_eq_of_mul_eq_one_right hmul).symm

theorem computes_modMul (hn : n ≠ 0) (hx : 0 ≤ x) (ha : 0 ≤ a) (hu : (x : ZMod n.natAbs) = u)
    (hw : (a : ZMod n.natAbs) = w) : Computes n (modMul x a n) (u * w) := by
  refine ⟨x * a % n, ?_, emod_canonical hn, by rw [cast_emod, Int.cast_mul, hu, hw, Units.val_mul]⟩
  rw [modMul, mul, UrsaCryptoResult.ok_bind, modulus_ok hn,
    Int.tmod_eq_emod_of_nonneg <| mul_nonneg hx ha, Int.natCast_natAbs, Int.emod_abs]

theorem modpow_ok (lib : NumBigint) (hn : 1 < n) (hb : 0 ≤ b) (he : 0 ≤ e) :
    lib.modpow b e (getModulus n) = .ok (b ^ e.toNat % n) := by
  rw [getModulus_eq, Int.natAbs_of_nonneg (by omega)]
  exact lib.modpow_eq b e n hb he <| by omega

theorem setNegative_false (e : ℤ) : setNegative e false = |e| := by
  unfold setNegative
  obtain he | he := lt_or_ge e 0
  case inl => rw [decide_eq_true he, abs_of_neg he]
  case inr => rw [decide_eq_false he.not_gt, abs_of_nonneg he]

theorem modExp_of_nonneg (lib : NumBigint) (hn : 1 < n) (hb : 0 ≤ b) (he : 0 ≤ e) :
    modExp lib b e n = .ok (b ^ e.toNat % n) := by
  have hneg : isNegative e = false := decide_eq_false he.not_gt
  rw [modExp, if_neg hn.ne', hneg]
  exact modpow_ok lib hn hb he

theorem inverse_nonneg (hn : 1 < n) (hb : 0 ≤ b) {inv : ℤ} (h : inverse b n = .ok inv) :
    0 ≤ inv := by
  have hn' : 1 < n.natAbs := by omega
  by_cases hg : Int.gcd b n = 1
  case pos =>
    obtain ⟨x, hx, hrange, -⟩ := inverse_ok hn' hg
    exact Except.ok.inj (hx.symm.trans h) ▸ hrange.left
  case neg =>
    rw [inverse_error hn' (Euclid.not_flipped_of_nonneg hb) hg] at h
    cases h

theorem modExp_of_neg (lib : NumBigint) (hn : 1 < n) (hb : 0 ≤ b) (he : e < 0) :
    modExp lib b e n = inverse b n >>= fun inv => .ok (inv ^ e.natAbs % n) := by
  have hneg : isNegative e = true := decide_eq_true he
  rw [modExp, if_neg hn.ne', hneg, if_pos rfl, setNegative_false]
  cases hinv : inverse b n with
  | error => rfl
  | ok inv =>
    simp only [UrsaCryptoResult.ok_bind]
    rw [modpow_ok lib hn (inverse_nonneg hn hb hinv) (abs_nonneg e), Int.abs_eq_natAbs,
      Int.toNat_natCast]

theorem computes_pow (hn : n ≠ 0) (hu : (b : ZMod n.natAbs) = u) (k : ℕ) :
    Computes n (.ok (b ^ k % n)) (u ^ k) :=
  ⟨_, rfl, emod_canonical hn, by rw [cast_emod, Int.cast_pow, hu, Units.val_pow_eq_pow_val]⟩

theorem computes_modExp (lib : NumBigint) (hn : 1 < n) (hb : 0 ≤ b)
    (hu : (b : ZMod n.natAbs) = u) (e : ℤ) : Computes n (modExp lib b e n) (u ^ e) := by
  obtain he | he := lt_or_ge e 0
  case inl =>
    rw [modExp_of_neg lib hn hb he]
    refine (computes_inverse (by omega) hb hu).bind fun inv hinv => ?_
    rw [show e = -(e.natAbs : ℤ) by omega, zpow_neg, zpow_natCast, ← inv_pow, Int.natAbs_neg,
      Int.natAbs_natCast]
    exact computes_pow (by omega) hinv _
  case inr =>
    rw [modExp_of_nonneg lib hn hb he]
    obtain ⟨k, rfl⟩ := Int.eq_ofNat_of_zero_le he
    rw [Int.toNat_natCast, zpow_natCast]
    exact computes_pow (by omega) hu k

end Computes

section Residues

theorem forall_ok {x : UrsaCryptoResult ℤ} {y : ℤ} {P : ℤ → Prop} (h : x = .ok y) :
    (∀ z, x = .ok z → P z) ↔ P y := by
  subst h
  simp

theorem modMul_eq (hn : n ≠ 0) (a b : ℤ) : modMul a b n = .ok ((a * b).tmod n.natAbs) :=
  modulus_ok hn _

theorem modSub_eq (hn : n ≠ 0) (a b : ℤ) : modSub a b n = .ok ((a - b).tmod n.natAbs) :=
  modulus_ok hn _

theorem modDiv_eq (hn : n ≠ 0) (a : ℤ) (h : inverse b n = .ok x) :
    modDiv a b n = .ok ((a * x).tmod n.natAbs) := by
  rw [modDiv, h]
  exact modulus_ok hn _

theorem isResidue_iff (hn : n ≠ 0) {r : UrsaCryptoResult ℤ} (h : r = .ok (x.tmod n.natAbs)) :
    (∀ y, r = .ok y → IsResidue n x y) ↔ 0 ≤ x ∨ n ∣ x := by
  rw [forall_ok h, isResidue_tmod_iff hn, sub_self, and_iff_left (dvd_zero n)]

-- `y` is the quotient `a / b` in `[0, |n|)`.
def IsQuotient (n a b y : ℤ) : Prop :=
  Int.gcd b n = 1 ∧ (0 ≤ y ∧ y < n.natAbs) ∧ n ∣ b * y - a

theorem isQuotient_of_natAbs (hn : n.natAbs = 1) {y : ℤ} (h : modDiv a b n = .ok y) :
    IsQuotient n a b y := by
  have hn₀ : n ≠ 0 := by omega
  have hdvd (x : ℤ) : n ∣ x := Int.natAbs_dvd.mp <| hn ▸ one_dvd x
  obtain ⟨x, hx, -⟩ := UrsaCryptoResult.bind_eq_ok_iff.mp h
  obtain rfl : (a * x).tmod n.natAbs = y := Except.ok.inj <| (modDiv_eq hn₀ a hx).symm.trans h
  refine ⟨by rw [Int.gcd_def, hn, Nat.gcd_one_right], ?_, hdvd _⟩
  exact ⟨tmod_nonneg_iff.mpr <| .inr <| hdvd _, tmod_lt hn₀ _⟩

theorem dvd_mul_sign_iff : n ∣ a * sign b n ↔ n ∣ a := by
  unfold sign
  split
  · rw [mul_neg_one, dvd_neg]
  · rw [mul_one]

theorem dvd_mul_sign_sub_iff :
    n ∣ a * sign b n - a ↔ (Euclid.Flipped n.natAbs b → n ∣ 2 * a) := by
  unfold sign
  split
  case isTrue hflip =>
    rw [show a * -1 - a = -(2 * a) by ring, dvd_neg]
    exact (imp_iff_right hflip).symm
  case isFalse hflip =>
    rw [mul_one, sub_self]
    exact iff_of_true (dvd_zero n) fun h => absurd h hflip

-- What `inverse` gives is a unit, so that the sign and the class of `a * x` are those of `a`.
theorem isQuotient_tmod_iff (hn : 1 < n.natAbs) (hg : Int.gcd b n = 1)
    (hrange : 0 ≤ x ∧ x < n.natAbs) (hdvd : n ∣ b * x - sign b n) :
    IsQuotient n a b ((a * x).tmod n.natAbs) ↔
      (0 ≤ a ∨ n ∣ a) ∧ (Euclid.Flipped n.natAbs b → n ∣ 2 * a) := by
  have hn₀ := ne_zero_of_one_lt hn
  have hab : n ∣ b * (a * x) - a * sign b n := by
    have := hdvd.mul_left a
    rwa [mul_sub, ← mul_assoc, mul_comm a, mul_assoc] at this
  have hclass : n ∣ a * x ↔ n ∣ a :=
    ⟨fun h => dvd_mul_sign_iff.mp <| (Int.dvd_iff_dvd_of_dvd_sub hab).mp <| h.mul_left b,
      fun h => h.mul_right x⟩
  have hpos : 0 < x := by
    refine lt_of_le_of_ne hrange.left fun hzero => ?_
    rw [← hzero, mul_zero, zero_sub, dvd_neg, ← one_mul (sign b n), dvd_mul_sign_iff] at hdvd
    have := Int.natAbs_dvd_natAbs.mpr hdvd
    rw [Int.natAbs_one, Nat.dvd_one] at this
    omega
  have hquotient : n ∣ b * (a * x).tmod n.natAbs - a ↔ n ∣ a * sign b n - a := by
    refine Int.dvd_iff_dvd_of_dvd_sub ?_
    rw [sub_sub_sub_cancel_right]
    have hmod := (dvd_tmod_sub n (a * x)).mul_left b
    rw [mul_sub] at hmod
    have := hmod.add hab
    rwa [sub_add_sub_cancel] at this
  rw [IsQuotient, and_iff_right hg, and_iff_left (tmod_lt hn₀ _), tmod_nonneg_iff, hclass,
    hquotient, dvd_mul_sign_sub_iff, mul_nonneg_iff_of_pos_right hpos]

theorem modDiv_isQuotient_iff (hn : n ≠ 0) :
    (∀ y, modDiv a b n = .ok y → IsQuotient n a b y) ↔
      (Int.gcd b n = 1 → 0 ≤ a ∨ n ∣ a) ∧
        (Euclid.Flipped n.natAbs b → Int.gcd b n = 1 ∧ n ∣ 2 * a) := by
  obtain hone | hn' : n.natAbs = 1 ∨ 1 < n.natAbs := by omega
  case inl =>
    have hdvd (x : ℤ) : n ∣ x := Int.natAbs_dvd.mp <| hone ▸ one_dvd x
    have hg : Int.gcd b n = 1 := by rw [Int.gcd_def, hone, Nat.gcd_one_right]
    exact iff_of_true (fun _ => isQuotient_of_natAbs hone)
      ⟨fun _ => .inr <| hdvd a, fun _ => ⟨hg, hdvd _⟩⟩
  case inr =>
    by_cases hg : Int.gcd b n = 1
    case pos =>
      obtain ⟨x, hx, hrange, hdvd⟩ := inverse_ok hn' hg
      rw [forall_ok (modDiv_eq hn a hx), isQuotient_tmod_iff hn' hg hrange hdvd]
      simp only [hg, forall_const, true_and]
    case neg =>
      by_cases hflip : Euclid.Flipped n.natAbs b
      case pos =>
        obtain ⟨x, hx⟩ := inverse_ok_of_flipped hn' hflip
        rw [forall_ok (modDiv_eq hn a hx)]
        exact iff_of_false (fun h => hg h.left) fun h => hg (h.right hflip).left
      case neg =>
        refine iff_of_true (fun y hy => ?_) ⟨fun h => absurd h hg, fun h => absurd h hflip⟩
        rw [modDiv, inverse_error hn' hflip hg] at hy
        cases hy

-- A number that is taken modulo `n` keeps its sign, and only a multiple of `n` loses it.
theorem residues_iff (hn : n ≠ 0) :
    ((∀ y, modulus a n = .ok y → IsResidue n a y) ↔ 0 ≤ a ∨ n ∣ a) ∧
    ((∀ y, modMul a b n = .ok y → IsResidue n (a * b) y) ↔ 0 ≤ a * b ∨ n ∣ a * b) ∧
    ((∀ y, modSub a b n = .ok y → IsResidue n (a - b) y) ↔ 0 ≤ a - b ∨ n ∣ a - b) ∧
    ((∀ y, modDiv a b n = .ok y → IsQuotient n a b y) ↔
      (Int.gcd b n = 1 → 0 ≤ a ∨ n ∣ a) ∧
        (Euclid.Flipped n.natAbs b → Int.gcd b n = 1 ∧ n ∣ 2 * a)) :=
  ⟨isResidue_iff hn <| modulus_ok hn a, isResidue_iff hn <| modMul_eq hn a b,
    isResidue_iff hn <| modSub_eq hn a b, modDiv_isQuotient_iff hn⟩

theorem residues_of_nonneg :
    (∀ y, modSub 3 5 (-2) = .ok y → IsResidue (-2) (3 - 5) y) ∧
      ∀ y, modDiv 3 5 7 = .ok y → IsQuotient 7 3 5 y :=
  ⟨(residues_iff (by decide)).right.right.left.mpr <| by decide,
    (residues_iff (by decide)).right.right.right.mpr <| by decide +kernel⟩

theorem residues_negative_wrong :
    (modulus (-1) 5 = .ok (-1) ∧ ¬IsResidue 5 (-1) (-1)) ∧
    (modMul (-1) 1 5 = .ok (-1) ∧ ¬IsResidue 5 (-1 * 1) (-1)) ∧
    (modSub 1 2 5 = .ok (-1) ∧ ¬IsResidue 5 (1 - 2) (-1)) ∧
    (modDiv (-1) 1 5 = .ok (-1) ∧ ¬IsQuotient 5 (-1) 1 (-1)) ∧
    (modDiv 1 (-1) 5 = .ok 1 ∧ ¬IsQuotient 5 1 (-1) 1) := by
  have hneg {P : Prop} : ¬((0 ≤ (-1 : ℤ) ∧ (-1 : ℤ) < (5 : ℤ).natAbs) ∧ P) :=
    fun h => absurd h.left.left <| by decide
  refine ⟨⟨by decide, hneg⟩, ⟨by decide, hneg⟩, ⟨by decide, hneg⟩,
    ⟨by decide +kernel, fun h => hneg h.right⟩, ⟨by decide +kernel, fun h => ?_⟩⟩
  exact absurd h.right.right <| by decide

end Residues

section Agreement

-- On what the protocols feed them the two backends do the same.
theorem inverse_eq_openssl (hn : 1 < n.natAbs) (ha : 0 ≤ a) (hg : Int.gcd a n = 1) :
    inverse a n = BigNumber.inverse a n := by
  obtain ⟨u, hu⟩ := isUnit_cast_iff.mpr hg
  exact (computes_inverse hn ha hu.symm).unique <| BigNumber.computes_inverse hn hu.symm

theorem modExp_eq_openssl (lib : NumBigint) (hn : 1 < n) (hb : 0 ≤ b) (hg : Int.gcd b n = 1)
    (e : ℤ) : modExp lib b e n = BigNumber.modExp b e n := by
  obtain ⟨u, hu⟩ := isUnit_cast_iff.mpr hg
  exact (computes_modExp lib hn hb hu.symm e).unique <|
    BigNumber.computes_modExp (by omega) hu.symm e

end Agreement

-- A sum of exponents of either sign is a product of powers.
theorem modExp_homomorphism (lib : NumBigint) (hn : 1 < n) (hb : 0 ≤ b) :
    (Int.gcd b n = 1 → ∀ x y : ℤ, ∃ p q pq : ℤ, modExp lib b x n = .ok p ∧
      modExp lib b y n = .ok q ∧ modExp lib b (x + y) n = .ok pq ∧ (0 ≤ p ∧ p < n) ∧
      modMul p q n = .ok pq) ∧
    (Int.gcd b n ≠ 1 → ∀ x < 0,
      modExp lib b x n = .error (.err .invalidState "Not invertible")) := by
  refine ⟨fun hg x y => ?_, fun hg x hx => ?_⟩
  · obtain ⟨u, hu⟩ := isUnit_cast_iff.mpr hg
    obtain ⟨p, hp, hrange, hcast⟩ := computes_modExp lib hn hb hu.symm x
    obtain ⟨q, hq, hrange', hcast'⟩ := computes_modExp lib hn hb hu.symm y
    obtain ⟨pq, hpq, -⟩ := computes_modExp lib hn hb hu.symm (x + y)
    have hlt := hrange.right.trans_eq <| Int.natAbs_of_nonneg (a := n) (by omega)
    refine ⟨p, q, pq, hp, hq, hpq, ⟨hrange.left, hlt⟩, ?_⟩
    have hmul := computes_modMul (by omega) hrange.left hrange'.left hcast hcast'
    rw [← zpow_add] at hmul
    rw [← hpq]
    exact hmul.unique <| computes_modExp lib hn hb hu.symm (x + y)
  · rw [modExp_of_neg lib hn hb hx, inverse_error (by omega) (Euclid.not_flipped_of_nonneg hb) hg]
    rfl

theorem modExp_homomorphism_three :
    (∃ p q pq : ℤ, modExp .exact 3 2 7 = .ok p ∧ modExp .exact 3 (-5) 7 = .ok q ∧
      modExp .exact 3 (2 + -5) 7 = .ok pq ∧ (0 ≤ p ∧ p < 7) ∧ modMul p q 7 = .ok pq) ∧
    modExp .exact 2 (-1) 4 = .error (.err .invalidState "Not invertible") :=
  ⟨(modExp_homomorphism .exact (by decide) (by decide)).left (by decide) 2 (-5),
    (modExp_homomorphism .exact (by decide) (by decide)).right (by decide) (-1) <| by decide⟩

end Ursa.Rust
