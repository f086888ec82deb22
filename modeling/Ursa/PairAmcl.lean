import Mathlib.Data.Int.ModEq
import Ursa.Pair

-- `pair/amcl.rs`, the integers that stand for the residues modulo the order of the curve.
namespace Ursa.Amcl

-- `BIG` of AMCL is an integer with its sign, and `add` and `sub` are exact. Of `modneg` no more is
-- known than the class of its result, and that it is not negative for a residue.
structure Lib where
  curveOrder : ℕ
  curveOrder_prime : curveOrder.Prime
  curveOrder_ne_two : curveOrder ≠ 2
  rmod : ℤ → ℤ → ℤ
  modmul : ℤ → ℤ → ℤ → ℤ
  modneg : ℤ → ℤ → ℤ
  rmod_eq : ∀ x m, 0 ≤ x → 0 < m → rmod x m = x % m
  modmul_modEq : ∀ x y m, 0 ≤ x → 0 ≤ y → 0 < m → modmul x y m ≡ x * y [ZMOD m]
  modneg_modEq : ∀ x m, 0 < m → modneg x m ≡ -x [ZMOD m]
  modneg_nonneg : ∀ x m, 0 ≤ x → x < m → 0 ≤ modneg x m

structure GroupOrderElement where
  bn : ℤ
  deriving DecidableEq, Repr

namespace GroupOrderElement

variable (lib : Lib) (self r : GroupOrderElement)

def addMod : UrsaCryptoResult GroupOrderElement :=
  let sum := self.bn + r.bn
  .ok { bn := lib.rmod sum lib.curveOrder }

def subMod : UrsaCryptoResult GroupOrderElement :=
  let diff := self.bn - r.bn
  if diff < 0 then .ok { bn := lib.modneg diff lib.curveOrder }
  else .ok { bn := diff }

def mulMod : UrsaCryptoResult GroupOrderElement :=
  .ok { bn := lib.modmul self.bn r.bn lib.curveOrder }

def modNeg : UrsaCryptoResult GroupOrderElement :=
  .ok { bn := lib.modneg self.bn lib.curveOrder }

end GroupOrderElement

namespace GroupOrderElement

open UrsaCryptoResult

variable {lib : Lib} {a b : GroupOrderElement}

-- The integers below the order of the curve.
structure Canonical (lib : Lib) (x : GroupOrderElement) : Prop where
  nonneg : 0 ≤ x.bn
  lt : x.bn < lib.curveOrder

-- What the four operations have to do for `a` and `b`.
structure FieldLaws (lib : Lib) (a b : GroupOrderElement) : Prop where
  add : ∃ r, addMod lib a b = .ok r ∧ r.bn ≡ a.bn + b.bn [ZMOD lib.curveOrder]
  sub : ∃ r, subMod lib a b = .ok r ∧ r.bn ≡ a.bn - b.bn [ZMOD lib.curveOrder] ∧ r.Canonical lib
  mul : ∃ r, mulMod lib a b = .ok r ∧ r.bn ≡ a.bn * b.bn [ZMOD lib.curveOrder]
  neg : ∃ r, modNeg lib a = .ok r ∧ r.bn ≡ -a.bn [ZMOD lib.curveOrder]
  add_sub : (do let d ← subMod lib a b; addMod lib d b) = .ok a
  sub_eq_add_neg : subMod lib a b = do let n ← modNeg lib b; addMod lib a n

theorem curveOrder_pos (lib : Lib) : (0 : ℤ) < lib.curveOrder :=
  Int.natCast_pos.mpr lib.curveOrder_prime.pos

theorem addMod_eq (h : 0 ≤ a.bn + b.bn) :
    addMod lib a b = .ok { bn := (a.bn + b.bn) % lib.curveOrder } := by
  rw [addMod, lib.rmod_eq _ _ h <| curveOrder_pos lib]

theorem subMod_of_le (h : b.bn ≤ a.bn) : subMod lib a b = .ok { bn := a.bn - b.bn } :=
  if_neg <| not_lt.mpr <| sub_nonneg.mpr h

-- The difference is negative already, and its negation has the wrong sign.
theorem subMod_of_lt (h : a.bn < b.bn) :
    ∃ r, subMod lib a b = .ok r ∧ r.bn ≡ b.bn - a.bn [ZMOD lib.curveOrder] := by
  refine ⟨_, if_pos <| sub_neg.mpr h, ?_⟩
  rw [← neg_sub a.bn]
  exact lib.modneg_modEq _ _ <| curveOrder_pos lib

theorem fieldLaws_of_le (ha : a.Canonical lib) (hb : b.Canonical lib) (h : b.bn ≤ a.bn) :
    FieldLaws lib a b where
  add := ⟨_, addMod_eq <| add_nonneg ha.nonneg hb.nonneg, Int.mod_modEq _ _⟩
  sub := ⟨_, subMod_of_le h, rfl, sub_nonneg.mpr h,
    (sub_le_self _ hb.nonneg).trans_lt ha.lt⟩
  mul := ⟨_, rfl, lib.modmul_modEq _ _ _ ha.nonneg hb.nonneg <| curveOrder_pos lib⟩
  neg := ⟨_, rfl, lib.modneg_modEq _ _ <| curveOrder_pos lib⟩
  add_sub := by
    have hsum : a.bn - b.bn + b.bn = a.bn := sub_add_cancel ..
    rw [subMod_of_le h, ok_bind, addMod_eq <| hsum.symm ▸ ha.nonneg, hsum,
      Int.emod_eq_of_lt ha.nonneg ha.lt]
  sub_eq_add_neg := by
    have hneg := lib.modneg_nonneg _ _ hb.nonneg hb.lt
    have hmod : (a.bn + lib.modneg b.bn lib.curveOrder) % lib.curveOrder = a.bn - b.bn := by
      rw [sub_eq_add_neg, (lib.modneg_modEq b.bn _ <| curveOrder_pos lib).add_left a.bn,
        ← sub_eq_add_neg]
      exact Int.emod_eq_of_lt (sub_nonneg.mpr h) <| (sub_le_self _ hb.nonneg).trans_lt ha.lt
    rw [subMod_of_le h, modNeg, ok_bind, addMod_eq <| add_nonneg ha.nonneg hneg, hmod]

-- Two residues whose difference is its own negation are the same, as the order is odd.
theorem eq_of_sub_modEq (ha : a.Canonical lib) (hb : b.Canonical lib)
    (h : b.bn - a.bn ≡ a.bn - b.bn [ZMOD lib.curveOrder]) : a.bn = b.bn := by
  have htwice : a.bn - b.bn - (b.bn - a.bn) = 2 * (a.bn - b.bn) := by ring
  have hdvd : (lib.curveOrder : ℤ) ∣ 2 * (a.bn - b.bn) := htwice ▸ h.dvd
  have hprime := Nat.prime_iff_prime_int.mp lib.curveOrder_prime
  obtain htwo | hdiff := hprime.dvd_or_dvd hdvd
  case inl =>
    have htwo := (Nat.prime_dvd_prime_iff_eq lib.curveOrder_prime Nat.prime_two).mp <|
      Int.natCast_dvd_natCast.mp htwo
    exact absurd htwo lib.curveOrder_ne_two
  case inr =>
    have hmod : b.bn % lib.curveOrder = a.bn % lib.curveOrder := Int.modEq_iff_dvd.mpr hdiff
    rw [Int.emod_eq_of_lt ha.nonneg ha.lt, Int.emod_eq_of_lt hb.nonneg hb.lt] at hmod
    exact hmod.symm

theorem fieldLaws_iff (ha : a.Canonical lib) (hb : b.Canonical lib) :
    FieldLaws lib a b ↔ b.bn ≤ a.bn := by
  refine ⟨fun h => not_lt.mp fun hlt => ?_, fieldLaws_of_le ha hb⟩
  obtain ⟨r, hr, hmod, -⟩ := h.sub
  obtain ⟨r', hr', hsub⟩ : ∃ r, subMod lib a b = .ok r ∧ _ := subMod_of_lt hlt
  obtain rfl := Except.ok.inj <| hr'.symm.trans hr
  exact hlt.ne <| eq_of_sub_modEq ha hb <| hsub.symm.trans hmod

-- The residue that an element stands for.
def residue (lib : Lib) (x : GroupOrderElement) : ZMod lib.curveOrder :=
  x.bn

theorem residue_eq {r : GroupOrderElement} {x : ℤ} (h : r.bn ≡ x [ZMOD lib.curveOrder]) :
    r.residue lib = x :=
  (ZMod.intCast_eq_intCast_iff _ _ _).mpr h

-- The operations are those of the residues, but a difference comes out with the wrong sign.
theorem residue_ops (ha : a.Canonical lib) (hb : b.Canonical lib) :
    (∃ r, addMod lib a b = .ok r ∧ r.residue lib = a.residue lib + b.residue lib) ∧
    (∃ r, mulMod lib a b = .ok r ∧ r.residue lib = a.residue lib * b.residue lib) ∧
    (∃ r, modNeg lib a = .ok r ∧ r.residue lib = -a.residue lib) ∧
    ∃ r, subMod lib a b = .ok r ∧ r.residue lib =
      if a.bn < b.bn then b.residue lib - a.residue lib
      else a.residue lib - b.residue lib := by
  refine ⟨⟨_, addMod_eq <| add_nonneg ha.nonneg hb.nonneg, ?_⟩, ⟨_, rfl, ?_⟩, ⟨_, rfl, ?_⟩, ?_⟩
  · rw [residue_eq <| Int.mod_modEq _ _, Int.cast_add]
    rfl
  · rw [residue_eq <| lib.modmul_modEq _ _ _ ha.nonneg hb.nonneg <| curveOrder_pos lib,
      Int.cast_mul]
    rfl
  · rw [residue_eq <| lib.modneg_modEq _ _ <| curveOrder_pos lib, Int.cast_neg]
    rfl
  · split
    case isTrue h =>
      obtain ⟨r, hr, hmod⟩ : ∃ r, subMod lib a b = .ok r ∧ _ := subMod_of_lt h
      refine ⟨r, hr, ?_⟩
      rw [residue_eq hmod, Int.cast_sub]
      rfl
    case isFalse h =>
      refine ⟨_, subMod_of_le <| not_lt.mp h, ?_⟩
      rw [residue, Int.cast_sub]
      rfl

section Sample

-- `rmod` returns a negative number as it is, and `modneg` subtracts what `rmod` returns.
def rmod (x m : ℤ) : ℤ :=
  if x < 0 then x else x % m

def modneg (x m : ℤ) : ℤ :=
  m - rmod x m

theorem rmod_eq (x m : ℤ) (hx : 0 ≤ x) (_ : 0 < m) : rmod x m = x % m :=
  if_neg hx.not_gt

theorem rmod_modEq (x m : ℤ) : rmod x m ≡ x [ZMOD m] := by
  unfold rmod
  split
  case isTrue => rfl
  case isFalse => exact Int.mod_modEq x m

theorem modneg_modEq (x m : ℤ) (_ : 0 < m) : modneg x m ≡ -x [ZMOD m] := by
  have h := (rmod_modEq x m).neg.add_left m
  rw [← sub_eq_add_neg] at h
  exact h.trans <| by simp

theorem modneg_nonneg (x m : ℤ) (hx : 0 ≤ x) (hlt : x < m) : 0 ≤ modneg x m := by
  rw [modneg, rmod_eq x m hx (hx.trans_lt hlt), Int.emod_eq_of_lt hx hlt]
  exact sub_nonneg.mpr hlt.le

theorem modmul_modEq (x y m : ℤ) (_ : 0 ≤ x) (_ : 0 ≤ y) (_ : 0 < m) :
    x * y % m ≡ x * y [ZMOD m] :=
  Int.mod_modEq _ _

theorem eleven_ne_two : 11 ≠ 2 := by
  decide

def libMod11 : Lib where
  curveOrder := 11
  curveOrder_prime := Nat.prime_eleven
  curveOrder_ne_two := eleven_ne_two
  rmod := rmod
  modmul x y m := x * y % m
  modneg := modneg
  rmod_eq := rmod_eq
  modmul_modEq := modmul_modEq
  modneg_modEq := modneg_modEq
  modneg_nonneg := modneg_nonneg

theorem fieldLaws_three_one : FieldLaws libMod11 ⟨3⟩ ⟨1⟩ :=
  (fieldLaws_iff ⟨by decide, by decide⟩ ⟨by decide, by decide⟩).mpr <| by decide

-- The difference of 0 and 1 is neither below the order nor of the class of -1.
theorem subMod_zero_one :
    subMod libMod11 ⟨0⟩ ⟨1⟩ = .ok ⟨12⟩ ∧
      ¬(12 : ℤ) ≡ 0 - 1 [ZMOD libMod11.curveOrder] ∧ ¬Canonical libMod11 ⟨12⟩ ∧
      (do let d ← subMod libMod11 ⟨0⟩ ⟨1⟩; addMod libMod11 d ⟨1⟩) = .ok ⟨2⟩ ∧
      (do let n ← modNeg libMod11 ⟨1⟩; addMod libMod11 ⟨0⟩ n) = .ok ⟨10⟩ := by
  refine ⟨by decide, by decide, fun h => ?_, by decide, by decide⟩
  exact absurd h.lt <| by decide

end Sample

end GroupOrderElement
end Ursa.Amcl
