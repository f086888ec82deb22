import Ursa.Cl.Prover
import Ursa.Cl.Verifier
import Ursa.Math.Sigma

namespace Ursa

variable {C : Curve}

namespace NonRevocProofXList

-- The extracted exponents: the responses are `tilde - c * value`, so the differences are taken
-- the other way round than those of the challenges.
def quotient (x x' : NonRevocProofXList C) (d : GroupOrderElement C) : NonRevocProofXList C where
  rho := (x'.rho - x.rho) / d
  r := (x'.r - x.r) / d
  rPrime := (x'.rPrime - x.rPrime) / d
  rPrimePrime := (x'.rPrimePrime - x.rPrimePrime) / d
  rPrimePrimePrime := (x'.rPrimePrimePrime - x.rPrimePrimePrime) / d
  o := (x'.o - x.o) / d
  oPrime := (x'.oPrime - x.oPrime) / d
  m := (x'.m - x.m) / d
  mPrime := (x'.mPrime - x.mPrime) / d
  t := (x'.t - x.t) / d
  tPrime := (x'.tPrime - x.tPrime) / d
  m2 := (x'.m2 - x.m2) / d
  s := (x'.s - x.s) / d
  c := (x'.c - x.c) / d

end NonRevocProofXList

-- The signature and the witness that are hidden in the commitments `cList`, opened with the
-- exponents `w`.
def openSignature (rPubKey : CredentialRevocationPublicKey C) (cList : NonRevocProofCList C)
    (w : NonRevocProofXList C) (i : UInt32) : NonRevocationCredentialSignature C where
  sigma := cList.a - w.rho • rPubKey.htilde
  c := w.c
  vrPrimePrime := w.s
  witnessSignature :=
    { sigmaI := cList.s - w.rPrimePrime • rPubKey.hCap
      uI := cList.u - w.rPrimePrimePrime • rPubKey.hCap
      gI := cList.g - w.r • rPubKey.htilde }
  gI := cList.g - w.r • rPubKey.htilde
  i := i
  m2 := w.m2

def openWitness (rPubKey : CredentialRevocationPublicKey C) (cList : NonRevocProofCList C)
    (w : NonRevocProofXList C) : Witness C where
  omega := cList.w - w.rPrime • rPubKey.hCap

namespace Prover

variable {rCred : NonRevocationCredentialSignature C} {rPubKey : CredentialRevocationPublicKey C}

-- The three equations that the prover tests.
structure WitnessSignatureEquations (rCred : NonRevocationCredentialSignature C)
    (rPubKey : CredentialRevocationPublicKey C) (revKeyPub : RevocationKeyPublic C)
    (revReg : RevocationRegistry C) (witness : Witness C) (m2 : GroupOrderElement C) : Prop where
  accum : C.pair rCred.witnessSignature.gI revReg.accum =
    C.pair rPubKey.g witness.omega + revKeyPub.z
  witnessSignature : C.pair (rPubKey.pk + rCred.gI) rCred.witnessSignature.sigmaI =
    C.pair rPubKey.g rPubKey.gDash
  signature : C.pair rCred.sigma (rPubKey.y + rCred.c • rPubKey.hCap) =
    C.pair (rPubKey.h0 + m2 • rPubKey.h1 + rCred.vrPrimePrime • rPubKey.h2 + rCred.gI)
      rPubKey.hCap

theorem testWitnessSignature_eq_ok_iff (hm : bignumToGroupElement C ctx = .ok m2) :
    testWitnessSignature rCred rPubKey revKeyPub revReg witness ctx = .ok () ↔
      WitnessSignatureEquations rCred rPubKey revKeyPub revReg witness m2 := by
  unfold testWitnessSignature
  simp only [hm, UrsaCryptoResult.ok_bind]
  constructor
  case mp =>
    intro h
    split_ifs at h with h₁ h₂ h₃
    push Not at h₁ h₂ h₃
    exact ⟨by rw [← h₁]; abel, h₂, h₃⟩
  case mpr =>
    intro h
    rw [if_neg (by rw [h.accum]; simp), if_neg (by rw [h.witnessSignature]; simp),
      if_neg (by rw [h.signature]; simp)]

end Prover

namespace ProofVerifier

open Sigma

variable {rPubKey : CredentialRevocationPublicKey C} {revReg : RevocationRegistry C}
variable {revKeyPub : RevocationKeyPublic C} {cList : NonRevocProofCList C}

theorem verifyNonRevocationProof_eq_ok
    (h : verifyNonRevocationProof rPubKey revReg revKeyPub cHash proof = .ok tau)
    (hc : bignumToGroupElement C cHash = .ok c) :
    let expected := createTauListExpectedValues rPubKey revReg revKeyPub proof.cList
    let values := createTauListValues rPubKey revReg proof.xList proof.cList
    tau =
      { t1 := c • expected.t1 + values.t1
        t2 := c • expected.t2 + values.t2
        t3 := c • expected.t3 + values.t3
        t4 := c • expected.t4 + values.t4
        t5 := c • expected.t5 + values.t5
        t6 := c • expected.t6 + values.t6
        t7 := c • expected.t7 + values.t7
        t8 := c • expected.t8 + values.t8 } := by
  simp only [verifyNonRevocationProof, hc, UrsaCryptoResult.ok_bind] at h
  injection h with h
  exact h.symm

-- The values are linear in the exponents.
theorem createTauListValues_quotient (rPubKey : CredentialRevocationPublicKey C)
    (revReg : RevocationRegistry C) (cList : NonRevocProofCList C) (x x' : NonRevocProofXList C)
    (hd : d ≠ 0) :
    let values w := createTauListValues rPubKey revReg w cList
    d • (values <| x.quotient x' d).t1 = (values x').t1 - (values x).t1 ∧
    d • (values <| x.quotient x' d).t2 = (values x').t2 - (values x).t2 ∧
    d • (values <| x.quotient x' d).t3 = (values x').t3 - (values x).t3 ∧
    d • (values <| x.quotient x' d).t4 = (values x').t4 - (values x).t4 ∧
    d • (values <| x.quotient x' d).t5 = (values x').t5 - (values x).t5 ∧
    d • (values <| x.quotient x' d).t6 = (values x').t6 - (values x).t6 ∧
    d • (values <| x.quotient x' d).t7 = (values x').t7 - (values x).t7 ∧
    d • (values <| x.quotient x' d).t8 = (values x').t8 - (values x).t8 := by
  simp only [createTauListValues, NonRevocProofXList.quotient, smul_add, smul_neg, neg_smul,
    ← mul_smul, mul_div_cancel₀ _ hd]
  refine ⟨?_, ?_, ?_, ?_, ?_, ?_, ?_, ?_⟩ <;> module

-- Both answers commit to the same values, so the expected ones are opened by the quotients.
theorem createTauListExpectedValues_eq (hc : bignumToGroupElement C cHash = .ok c)
    (hc' : bignumToGroupElement C cHash' = .ok c') (hne : c ≠ c')
    (h : verifyNonRevocationProof rPubKey revReg revKeyPub cHash ⟨x, cList⟩ = .ok tau)
    (h' : verifyNonRevocationProof rPubKey revReg revKeyPub cHash' ⟨x', cList⟩ = .ok tau) :
    createTauListExpectedValues rPubKey revReg revKeyPub cList =
      createTauListValues rPubKey revReg (x.quotient x' (c - c')) cList := by
  have htau := (verifyNonRevocationProof_eq_ok h hc).symm.trans <|
    verifyNonRevocationProof_eq_ok h' hc'
  simp only [NonRevocProofTauList.mk.injEq] at htau
  obtain ⟨h₁, h₂, h₃, h₄, h₅, h₆, h₇, h₈⟩ := htau
  obtain ⟨q₁, q₂, q₃, q₄, q₅, q₆, q₇, q₈⟩ := createTauListValues_quotient
    rPubKey revReg cList x x' (sub_ne_zero.mpr hne)
  apply NonRevocProofTauList.ext
  case t1 => exact extract_linear hne q₁ h₁
  case t2 => exact extract_linear hne q₂ h₂
  case t3 => exact extract_linear hne q₃ h₃
  case t4 => exact extract_linear hne q₄ h₄
  case t5 => exact extract_linear hne q₅ h₅
  case t6 => exact extract_linear hne q₆ h₆
  case t7 => exact extract_linear hne q₇ h₇
  case t8 => exact extract_linear hne q₈ h₈

section Opened

variable {w : NonRevocProofXList C}
variable (hw : createTauListExpectedValues rPubKey revReg revKeyPub cList =
  createTauListValues rPubKey revReg w cList)

include hw

-- `t1` and `t2`: the product `m = rho * c`, or a relation between `h` and `htilde`.
theorem opened_relation_h :
    (w.c * w.rho - w.m) • rPubKey.h + (w.c * w.o - w.t) • rPubKey.htilde = 0 := by
  have h₁ := congrArg NonRevocProofTauList.t1 hw
  have h₂ := congrArg NonRevocProofTauList.t2 hw
  simp only [createTauListExpectedValues, createTauListValues, neg_smul, ← sub_eq_add_neg] at h₁ h₂
  exact relation rPubKey.h rPubKey.htilde h₁ h₂.symm

-- `t5` and `t6`: the product `m' = r'' * r`, or a relation between `g` and `htilde`.
theorem opened_relation_g :
    (w.rPrimePrime * w.r - w.mPrime) • rPubKey.g +
      (w.rPrimePrime * w.oPrime - w.tPrime) • rPubKey.htilde = 0 := by
  have h₅ := congrArg NonRevocProofTauList.t5 hw
  have h₆ := congrArg NonRevocProofTauList.t6 hw
  simp only [createTauListExpectedValues, createTauListValues, neg_smul, ← sub_eq_add_neg] at h₅ h₆
  exact relation rPubKey.g rPubKey.htilde h₅ h₆.symm

-- `t4`
theorem opened_accum :
    C.pair (cList.g - w.r • rPubKey.htilde) revReg.accum =
      C.pair rPubKey.g (cList.w - w.rPrime • rPubKey.hCap) + revKeyPub.z := by
  have h₄ := congrArg NonRevocProofTauList.t4 hw
  simp only [createTauListExpectedValues, createTauListValues, Curve.pair_neg_left] at h₄
  simp only [Curve.pair_sub_left, Curve.pair_sub_right, Curve.pair_smul_left,
    Curve.pair_smul_right]
  rw [← sub_eq_zero] at h₄ ⊢
  rw [← h₄]
  module

-- `t7`, with the product of `opened_relation_g`
theorem opened_witnessSignature (hm : w.mPrime = w.rPrimePrime * w.r) :
    C.pair (rPubKey.pk + (cList.g - w.r • rPubKey.htilde))
        (cList.s - w.rPrimePrime • rPubKey.hCap) =
      C.pair rPubKey.g rPubKey.gDash := by
  have h₇ := congrArg NonRevocProofTauList.t7 hw
  simp only [createTauListExpectedValues, createTauListValues, hm] at h₇
  simp only [Curve.pair_add_left, Curve.pair_sub_left, Curve.pair_sub_right, Curve.pair_smul_left,
    Curve.pair_smul_right] at h₇ ⊢
  rw [← sub_eq_zero] at h₇ ⊢
  rw [← h₇]
  module

-- `t3`, with the product of `opened_relation_h`
theorem opened_signature (hm : w.m = w.c * w.rho) :
    C.pair (cList.a - w.rho • rPubKey.htilde) (rPubKey.y + w.c • rPubKey.hCap) =
      C.pair
        (rPubKey.h0 + w.m2 • rPubKey.h1 + w.s • rPubKey.h2 + (cList.g - w.r • rPubKey.htilde))
        rPubKey.hCap := by
  have h₃ := congrArg NonRevocProofTauList.t3 hw
  simp only [createTauListExpectedValues, createTauListValues, hm] at h₃
  simp only [Curve.pair_add_left, Curve.pair_add_right, Curve.pair_sub_left, Curve.pair_smul_left,
    Curve.pair_smul_right] at h₃ ⊢
  rw [← sub_eq_zero] at h₃ ⊢
  rw [← neg_zero, ← h₃]
  module

end Opened

-- Two answers to one commitment `cList` either give a relation between two of the bases that is not
-- trivial, or they open `cList` to a signature and a witness that the prover's own test accepts.
theorem nonRevocationProof_specialSound {proof proof' : NonRevocProof C}
    (hc : bignumToGroupElement C cHash = .ok c) (hc' : bignumToGroupElement C cHash' = .ok c')
    (hne : c ≠ c') (hl : proof.cList = proof'.cList)
    (h : verifyNonRevocationProof rPubKey revReg revKeyPub cHash proof = .ok tau)
    (h' : verifyNonRevocationProof rPubKey revReg revKeyPub cHash' proof' = .ok tau) :
    let w := proof.xList.quotient proof'.xList (c - c')
    (w.c * w.rho - w.m, w.c * w.o - w.t) ≠ (0, 0) ∧
      (w.c * w.rho - w.m) • rPubKey.h + (w.c * w.o - w.t) • rPubKey.htilde = 0 ∨
    (w.rPrimePrime * w.r - w.mPrime, w.rPrimePrime * w.oPrime - w.tPrime) ≠ (0, 0) ∧
      (w.rPrimePrime * w.r - w.mPrime) • rPubKey.g +
        (w.rPrimePrime * w.oPrime - w.tPrime) • rPubKey.htilde = 0 ∨
    ∀ i, Prover.WitnessSignatureEquations (openSignature rPubKey proof.cList w i) rPubKey revKeyPub
        revReg (openWitness rPubKey proof.cList w) w.m2 ∧
      ∀ rCnxtM2, bignumToGroupElement C rCnxtM2 = .ok w.m2 →
        Prover.testWitnessSignature (openSignature rPubKey proof.cList w i) rPubKey revKeyPub
          revReg (openWitness rPubKey proof.cList w) rCnxtM2 = .ok () := by
  intro w
  obtain ⟨x, cList⟩ := proof
  obtain ⟨x', cList'⟩ := proof'
  obtain rfl : cList = cList' := hl
  have hw := createTauListExpectedValues_eq hc hc' hne h h'
  by_cases hm : (w.c * w.rho - w.m, w.c * w.o - w.t) = (0, 0)
  case neg => exact .inl ⟨hm, opened_relation_h hw⟩
  by_cases hm' : (w.rPrimePrime * w.r - w.mPrime, w.rPrimePrime * w.oPrime - w.tPrime) = (0, 0)
  case neg => exact .inr <| .inl ⟨hm', opened_relation_g hw⟩
  have hrho : w.m = w.c * w.rho := (sub_eq_zero.mp (congrArg Prod.fst hm)).symm
  have hr : w.mPrime = w.rPrimePrime * w.r := (sub_eq_zero.mp (congrArg Prod.fst hm')).symm
  refine .inr <| .inr fun i => ?_
  have heqs : Prover.WitnessSignatureEquations (openSignature rPubKey cList w i) rPubKey revKeyPub
      revReg (openWitness rPubKey cList w) w.m2 :=
    ⟨opened_accum hw, opened_witnessSignature hw hr, opened_signature hw hrho⟩
  exact ⟨heqs, fun _ hctx => (Prover.testWitnessSignature_eq_ok_iff hctx).mpr heqs⟩

section Residues

def curveMod11 : Curve := .residues 11 (by decide)

def mod11 (x : ℕ) : GroupOrderElement curveMod11 :=
  (x : ZMod 11)

def rPubKeyMod11 : CredentialRevocationPublicKey curveMod11 where
  g := mod11 1
  gDash := mod11 8
  h := mod11 2
  h0 := mod11 3
  h1 := mod11 4
  h2 := mod11 5
  htilde := mod11 6
  hCap := mod11 1
  u := mod11 7
  pk := mod11 3
  y := mod11 4

def cListMod11 : NonRevocProofCList curveMod11 where
  e := mod11 6
  d := mod11 9
  a := mod11 7
  g := mod11 6
  w := mod11 9
  s := mod11 0
  u := mod11 6

-- One prover's answer to a challenge.
def proofMod11 (responses : List (ZMod 11)) : NonRevocProof curveMod11 where
  xList := .fromList responses
  cList := cListMod11

theorem nonRevocationProof_specialSound_mod11 :
    let proof := proofMod11 [8, 8, 10, 3, 6, 6, 7, 5, 6, 1, 5, 4, 4, 6]
    let proof' := proofMod11 [9, 10, 1, 7, 10, 8, 4, 6, 2, 10, 2, 2, 0, 5]
    let w := proof.xList.quotient proof'.xList (2 - 7)
    Prover.WitnessSignatureEquations (openSignature rPubKeyMod11 cListMod11 w 0) rPubKeyMod11
      ⟨mod11 10⟩ ⟨mod11 5⟩ (openWitness rPubKeyMod11 cListMod11 w) w.m2 := by
  intro proof proof' w
  let verify := verifyNonRevocationProof rPubKeyMod11 ⟨mod11 5⟩ ⟨mod11 10⟩
  have htau : verify 7 proof' = verify 2 proof := by decide +kernel
  have hl : proof.cList = proof'.cList := rfl
  obtain ⟨tau, h⟩ : ∃ tau, verify 2 proof = .ok tau := ⟨_, rfl⟩
  have hc : bignumToGroupElement curveMod11 2 = .ok 2 := rfl
  have hc' : bignumToGroupElement curveMod11 7 = .ok 7 := rfl
  obtain ⟨hne, -⟩ | ⟨hne, -⟩ | hsig :=
    nonRevocationProof_specialSound hc hc' (by decide +kernel) hl h (htau.trans h)
  · exact absurd (by decide +kernel) hne
  · exact absurd (by decide +kernel) hne
  · exact (hsig 0).1

end Residues

end ProofVerifier
end Ursa
