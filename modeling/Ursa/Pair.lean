import Mathlib
import Ursa.Bn

namespace Ursa

-- `pair/amcl.rs`. The curve arithmetic is AMCL's: three groups of prime order `q`, a bilinear
-- pairing, and the byte encodings of their elements. The group of `Pair` is written additively
-- too, so `Pair::mul`, `Pair::pow` and `Pair::inverse` are `+`, `•` and `-`.
structure Curve where
  q : ℕ
  [prime : Fact q.Prime]
  G₁ : Type
  G₂ : Type
  GT : Type
  [addCommGroup₁ : AddCommGroup G₁]
  [addCommGroup₂ : AddCommGroup G₂]
  [addCommGroupT : AddCommGroup GT]
  [module₁ : Module (ZMod q) G₁]
  [module₂ : Module (ZMod q) G₂]
  [moduleT : Module (ZMod q) GT]
  [decidableEq₁ : DecidableEq G₁]
  [decidableEq₂ : DecidableEq G₂]
  [decidableEqT : DecidableEq GT]
  pairing : G₁ →ₗ[ZMod q] G₂ →ₗ[ZMod q] GT
  toBytes₁ : G₁ → List UInt8
  toBytes₂ : G₂ → List UInt8
  toBytesT : GT → List UInt8

namespace Curve

attribute [instance] prime addCommGroup₁ addCommGroup₂ addCommGroupT module₁ module₂ moduleT
attribute [instance] decidableEq₁ decidableEq₂ decidableEqT

section Pair

-- `Pair::pair`
def pair (C : Curve) (x : C.G₁) (y : C.G₂) : C.GT :=
  C.pairing x y

variable {C : Curve} (x x' : C.G₁) (y y' : C.G₂) (k : ZMod C.q)

theorem pair_add_left : C.pair (x + x') y = C.pair x y + C.pair x' y :=
  LinearMap.map_add₂ ..

theorem pair_add_right : C.pair x (y + y') = C.pair x y + C.pair x y' :=
  map_add ..

theorem pair_sub_left : C.pair (x - x') y = C.pair x y - C.pair x' y :=
  LinearMap.map_sub₂ ..

theorem pair_sub_right : C.pair x (y - y') = C.pair x y - C.pair x y' :=
  map_sub ..

theorem pair_neg_left : C.pair (-x) y = -C.pair x y :=
  LinearMap.map_neg₂ ..

theorem pair_smul_left : C.pair (k • x) y = k • C.pair x y :=
  LinearMap.map_smul₂ ..

theorem pair_smul_right : C.pair x (k • y) = k • C.pair x y :=
  map_smul ..

theorem pair_zero_left : C.pair 0 y = 0 :=
  LinearMap.map_zero₂ ..

theorem pair_zero_right : C.pair x 0 = 0 :=
  map_zero ..

theorem pair_sum_right (s : Finset ι) (f : ι → C.G₂) :
    C.pair x (∑ k ∈ s, f k) = ∑ k ∈ s, C.pair x (f k) :=
  map_sum ..

end Pair

-- The two groups of the pairing exchanged.
def flip (C : Curve) : Curve where
  q := C.q
  G₁ := C.G₂
  G₂ := C.G₁
  GT := C.GT
  pairing := C.pairing.flip
  toBytes₁ := C.toBytes₂
  toBytes₂ := C.toBytes₁
  toBytesT := C.toBytesT

-- The residues modulo `q` with their product as the pairing. Discrete logarithms are trivial here,
-- the equations of the protocols are the same.
def residues (q : ℕ) (hq : q.Prime) : Curve where
  q := q
  prime := ⟨hq⟩
  G₁ := ZMod q
  G₂ := ZMod q
  GT := ZMod q
  decidableEq₁ := ZMod.decidableEq q
  decidableEq₂ := ZMod.decidableEq q
  decidableEqT := ZMod.decidableEq q
  pairing := LinearMap.mul (ZMod q) (ZMod q)
  toBytes₁ x := [UInt8.ofNat x.val]
  toBytes₂ x := [UInt8.ofNat x.val]
  toBytesT x := [UInt8.ofNat x.val]

instance (C : Curve) : NeZero C.q :=
  ⟨C.prime.out.ne_zero⟩

-- The two groups of points have no subgroups, and the pairing is not degenerate.
structure PrimeOrder (C : Curve) : Prop where
  exists_smul₁ : ∀ x y : C.G₁, x ≠ 0 → ∃ k : ZMod C.q, k • x = y
  exists_smul₂ : ∀ x y : C.G₂, x ≠ 0 → ∃ k : ZMod C.q, k • x = y
  nondegenerate : ∀ x y, C.pair x y = 0 → x = 0 ∨ y = 0

theorem PrimeOrder.pair_injective {C : Curve} (h : C.PrimeOrder) {y : C.G₂} (hy : y ≠ 0) :
    Function.Injective fun x => C.pair x y := by
  intro x x' heq
  have hsub : C.pair (x - x') y = 0 := by
    rw [pair_sub_left]
    exact sub_eq_zero.mpr heq
  exact sub_eq_zero.mp <| (h.nondegenerate _ _ hsub).resolve_right hy

theorem PrimeOrder.pair_injective_right {C : Curve} (h : C.PrimeOrder) {x : C.G₁} (hx : x ≠ 0) :
    Function.Injective (C.pair x) := by
  intro y y' heq
  have hsub : C.pair x (y - y') = 0 := by
    rw [pair_sub_right, heq, sub_self]
  exact sub_eq_zero.mp <| (h.nondegenerate _ _ hsub).resolve_left hx

theorem residues_primeOrder (q : ℕ) (hq : q.Prime) : (residues q hq).PrimeOrder := by
  have : Fact q.Prime := ⟨hq⟩
  have hdiv (x y : ZMod q) (hx : x ≠ 0) : ∃ k : ZMod q, k * x = y :=
    ⟨y / x, div_mul_cancel₀ y hx⟩
  have hzero (x y : ZMod q) (hxy : x * y = 0) : x = 0 ∨ y = 0 := mul_eq_zero.mp hxy
  exact ⟨hdiv, hdiv, hzero⟩

-- A prime of about the size of the order of the curve that is used.
def largeOrder : ℕ := 35 * 2 ^ 245 + 1

theorem largeOrder_prime : largeOrder.Prime := by
  refine ModArith.prime_of_powMod (b := 3) (by decide) (by decide +kernel) fun q hq hdvd => ?_
  obtain hdvd | hdvd := hq.dvd_mul.mp (show q ∣ 35 * 2 ^ 245 from hdvd)
  · obtain hdvd | hdvd := hq.dvd_mul.mp (show q ∣ 5 * 7 from hdvd)
    · obtain rfl := (Nat.prime_dvd_prime_iff_eq hq (by decide)).mp hdvd
      decide +kernel
    · obtain rfl := (Nat.prime_dvd_prime_iff_eq hq (by decide)).mp hdvd
      decide +kernel
  · obtain rfl := (Nat.prime_dvd_prime_iff_eq hq Nat.prime_two).mp <| hq.dvd_of_dvd_pow hdvd
    decide +kernel

end Curve

abbrev PointG1 (C : Curve) := C.G₁

abbrev PointG2 (C : Curve) := C.G₂

abbrev Pair (C : Curve) := C.GT

abbrev GroupOrderElement (C : Curve) := ZMod C.q

namespace GroupOrderElement

variable {C : Curve}

-- `MODBYTES` of the curve
def bytesReprSize : ℕ := 32

def fromBytes (C : Curve) (b : List UInt8) : UrsaCryptoResult (GroupOrderElement C) :=
  if bytesReprSize < b.length then
    .error <| .err .invalidStructure "Invalid len of bytes representation for GroupOrderElement"
  else .ok (BigNumber.fromBytes b : ZMod C.q)

-- `pow_mod` of an exponent that `from_bytes` reads, which is not reduced modulo the order.
def powMod (self : GroupOrderElement C) (e : List UInt8) :
    UrsaCryptoResult (GroupOrderElement C) := do
  let _ ← fromBytes C e
  pure (self ^ BigNumber.magnitude e)

-- The loop of AMCL does not come to an end for `0`.
def inverse (self : GroupOrderElement C) : UrsaCryptoResult (GroupOrderElement C) :=
  if self = 0 then .error <| .panic "inverse of 0" else .ok self⁻¹

-- The canonical representative, padded with zeros on the left.
def toBytes (self : GroupOrderElement C) : List UInt8 :=
  let bytes := BigNumber.toBytes (self.val : ℤ)
  List.replicate (bytesReprSize - bytes.length) 0 ++ bytes

end GroupOrderElement

def bignumToGroupElement (C : Curve) (num : BigNumber) : UrsaCryptoResult (GroupOrderElement C) :=
  GroupOrderElement.fromBytes C num.toBytes

def groupElementToBignum {C : Curve} (el : GroupOrderElement C) : BigNumber :=
  BigNumber.fromBytes (GroupOrderElement.toBytes el)

theorem groupElementToBignum_eq {C : Curve} (el : GroupOrderElement C) :
    groupElementToBignum el = (el.val : ℤ) := by
  rw [groupElementToBignum, GroupOrderElement.toBytes, BigNumber.fromBytes,
    BigNumber.magnitude_zeros, BigNumber.magnitude_toBytes, Int.natAbs_natCast]

theorem bignumToGroupElement_eq_natAbs {C : Curve} {num : ℤ} (h : num.natAbs < 256 ^ 32) :
    bignumToGroupElement C num = .ok (num.natAbs : ZMod C.q) := by
  have hlen : ¬GroupOrderElement.bytesReprSize < (BigNumber.toBytes num).length :=
    not_lt.mpr <| BigNumber.toBytes_length_le h
  rw [bignumToGroupElement, GroupOrderElement.fromBytes, if_neg hlen, BigNumber.fromBytes,
    BigNumber.magnitude_toBytes, Int.cast_natCast]

theorem bignumToGroupElement_eq_ok {C : Curve} {num : ℤ} (h₀ : 0 ≤ num) (h : num < 256 ^ 32) :
    bignumToGroupElement C num = .ok (num : ZMod C.q) := by
  rw [bignumToGroupElement_eq_natAbs (by omega), ← Int.cast_natCast, Int.natAbs_of_nonneg h₀]

end Ursa
