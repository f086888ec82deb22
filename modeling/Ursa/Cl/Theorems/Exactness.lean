import Ursa.Cl.Theorems.Completeness.Issuance
import Ursa.Cl.Theorems.Completeness.PrimaryProof

namespace Ursa.Predicate

open UrsaCryptoResult ProofBuilder

-- The difference of a value and a bound of `i32` need not fit an `i32`, and then its sign is wrong
-- too. The next value after a bound is missing at the two ends only.
theorem exact_iff (p : Predicate) (a : Int32) :
    ((p.getDelta a).toInt = p.delta a.toInt ↔ p.Fits a.toInt) ∧
    ((0 ≤ (p.getDelta a).toInt ↔ p.Holds a.toInt) ↔ p.Fits a.toInt) ∧
    (p.getDeltaPrime = p.bound a.toInt ↔ p.NoOverflow) ∧
    ∀ (pPubKey : CredentialPrimaryPublicKey) (mTilde : HashMap BigNumber)
      (values : CredentialValues) (value : CredentialValue) (mj : ℤ) (draws : NeProofDraws),
      1 < pPubKey.n.natAbs → Int.gcd pPubKey.s pPubKey.n = 1 →
      values.attrsValues.lookup p.attrName = some value → value.value = a.toInt →
      mTilde.lookup p.attrName = some mj → 0 ≤ mj →
      (((∃ initProof, initNeProof pPubKey mTilde values p draws = .ok initProof) ↔
        p.Holds a.toInt) ↔ p.Fits a.toInt) := by
  refine ⟨getDelta_eq_iff p a, getDelta_sign_iff p a, getDeltaPrime_eq_iff p _, ?_⟩
  intro pPubKey mTilde values value mj draws hn hs hvalue ha hmTilde hmj
  rw [initNeProof_ok_iff hn hs hvalue ha hmTilde hmj draws, getDelta_sign_iff]

theorem exact_adult : ∃ initProof, initNeProof identityPubKey.pKey
    ((∅ : HashMap BigNumber).insert "age" 1) identityValues ⟨"age", .GE, 18⟩
    { r := fun _ => .zero
      rDelta := .zero
      uTilde := fun _ => .zero
      rTilde := fun _ => .zero
      rTildeDelta := .zero
      alphaTilde := .zero } = .ok initProof := by
  have hvalue : identityValues.attrsValues.lookup "age" = some (.known 20) := by decide +kernel
  obtain ⟨-, -, -, h⟩ := exact_iff ⟨"age", .GE, 18⟩ 20
  refine ((h _ _ _ _ _ _ (by decide) (by decide) hvalue rfl (Finmap.lookup_insert _)
    (by decide)).mpr ?_).mpr ?_
  · decide
  · decide

-- The greatest value is at least -1, and no value is greater than the greatest one.
theorem not_exact :
    (getDelta ⟨"age", .GE, -1⟩ 2147483647).toInt = -2 ^ 31 ∧
    delta ⟨"age", .GE, -1⟩ 2147483647 = 2 ^ 31 ∧ Holds ⟨"age", .GE, -1⟩ 2147483647 ∧
    getDeltaPrime ⟨"age", .GT, 2147483647⟩ = -2 ^ 31 ∧
    bound ⟨"age", .GT, 2147483647⟩ 0 = 2 ^ 31 ∧
    ¬∀ (p : Predicate) (a : Int32), (p.getDelta a).toInt = p.delta a.toInt ∧
      (0 ≤ (p.getDelta a).toInt ↔ p.Holds a.toInt) ∧ p.getDeltaPrime = p.bound a.toInt := by
  refine ⟨by decide, by decide, by decide, by decide, by decide, fun h => ?_⟩
  exact absurd (h ⟨"age", .GE, -1⟩ 2147483647).left <| by decide

end Ursa.Predicate
