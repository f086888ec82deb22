import Ursa.Cl.Theorems.Revocation.Registry

namespace Ursa

open UrsaCryptoResult
open Prover (WitnessSignatureEquations)

variable {C : Curve} {rPubKey : CredentialRevocationPublicKey C} {revReg : RevocationRegistry C}
variable {revKeyPub : RevocationKeyPublic C} {rCred : NonRevocationCredentialSignature C}
variable {witness : Witness C} {m2 c : GroupOrderElement C}

namespace ProofBuilder

-- What holds between a processed signature, a witness and a registry. The last equation is not one
-- that the prover tests: the issuer makes both sides with the same exponent.
structure Consistent (rCred : NonRevocationCredentialSignature C)
    (rPubKey : CredentialRevocationPublicKey C) (revKeyPub : RevocationKeyPublic C)
    (revReg : RevocationRegistry C) (witness : Witness C) : Prop extends
    WitnessSignatureEquations rCred rPubKey revKeyPub revReg witness rCred.m2 where
  gI_eq : rCred.witnessSignature.gI = rCred.gI
  u : C.pair rCred.gI rPubKey.u = C.pair rPubKey.g rCred.witnessSignature.uI

-- The exponents that the prover commits to open every expected value.
theorem createTauListExpectedValues_honest (h : Consistent rCred rPubKey revKeyPub revReg witness)
    (draws : CListDraws C) :
    let params := genCListParams rCred draws
    let cList := createCListValues rCred params rPubKey witness
    createTauListExpectedValues rPubKey revReg revKeyPub cList =
      createTauListValues rPubKey revReg params cList := by
  intro params cList
  have haccum := h.accum
  have hwitness := h.witnessSignature
  have hsignature := h.signature
  have hu := h.u
  rw [h.gI_eq] at haccum
  simp only [Curve.pair_add_left, Curve.pair_add_right, Curve.pair_smul_left,
    Curve.pair_smul_right] at hwitness hsignature
  rw [← sub_eq_zero] at haccum hwitness hsignature hu
  apply NonRevocProofTauList.ext
  all_goals
    simp only [createTauListExpectedValues, createTauListValues, cList, createCListValues, params,
      genCListParams, Curve.pair_add_left, Curve.pair_add_right, Curve.pair_smul_left,
      Curve.pair_smul_right, Curve.pair_neg_left]
  case t2 => module
  case t3 =>
    rw [← sub_eq_zero, ← neg_zero, ← hsignature]
    module
  case t4 =>
    rw [← sub_eq_zero, ← haccum]
    module
  case t6 => module
  case t7 =>
    rw [← sub_eq_zero, ← hwitness]
    module
  case t8 =>
    rw [← sub_eq_zero, ← hu]
    module

-- The values of the verifier: the challenge times the expected ones is what the responses lack.
theorem createTauListValues_respond (params tauParams : NonRevocProofXList C)
    (cList : NonRevocProofCList C) (c : GroupOrderElement C) :
    let values w := createTauListValues rPubKey revReg w cList
    let w := NonRevocProofXList.fromList <|
      List.zipWith (fun x y => x + -(c * y)) tauParams.asList params.asList
    ({ t1 := c • (values params).t1 + (values w).t1
       t2 := c • (values params).t2 + (values w).t2
       t3 := c • (values params).t3 + (values w).t3
       t4 := c • (values params).t4 + (values w).t4
       t5 := c • (values params).t5 + (values w).t5
       t6 := c • (values params).t6 + (values w).t6
       t7 := c • (values params).t7 + (values w).t7
       t8 := c • (values params).t8 + (values w).t8 } : NonRevocProofTauList C) =
      values tauParams := by
  intro values w
  have hw : w =
      { rho := tauParams.rho + -(c * params.rho)
        r := tauParams.r + -(c * params.r)
        rPrime := tauParams.rPrime + -(c * params.rPrime)
        rPrimePrime := tauParams.rPrimePrime + -(c * params.rPrimePrime)
        rPrimePrimePrime := tauParams.rPrimePrimePrime + -(c * params.rPrimePrimePrime)
        o := tauParams.o + -(c * params.o)
        oPrime := tauParams.oPrime + -(c * params.oPrime)
        m := tauParams.m + -(c * params.m)
        mPrime := tauParams.mPrime + -(c * params.mPrime)
        t := tauParams.t + -(c * params.t)
        tPrime := tauParams.tPrime + -(c * params.tPrime)
        m2 := tauParams.m2 + -(c * params.m2)
        s := tauParams.s + -(c * params.s)
        c := tauParams.c + -(c * params.c) } := rfl
  apply NonRevocProofTauList.ext
  all_goals
    simp only [values, hw, createTauListValues]
    module

theorem verify_finalize (h : Consistent rCred rPubKey revKeyPub revReg witness)
    (hc : bignumToGroupElement C cHash = .ok c) (draws : CListDraws C)
    (tauListParams : NonRevocProofXList C) :
    let initProof := initNonRevocationProof rCred revReg rPubKey witness draws tauListParams
    ∃ proof, finalizeNonRevocationProof initProof cHash = .ok proof ∧
      ProofVerifier.verifyNonRevocationProof rPubKey revReg revKeyPub cHash proof =
        .ok initProof.tauList := by
  intro initProof
  refine ⟨_, by rw [finalizeNonRevocationProof, hc, ok_bind]; rfl, ?_⟩
  have hexpected := createTauListExpectedValues_honest h draws
  simp only [ProofVerifier.verifyNonRevocationProof, hc, ok_bind, initProof,
    initNonRevocationProof, hexpected]
  exact congrArg _ <| createTauListValues_respond _ tauListParams _ c

end ProofBuilder

section Issued

variable {credPubKey : CredentialPublicKey C} {credPrivKey : CredentialPrivateKey C}
variable {rPrivKey : CredentialRevocationPrivateKey C} {blinded : BlindedCredentialSecrets C}
variable {issued : NonRevocationCredentialSignature C} {vrPrime : GroupOrderElement C}
variable {revReg₁ revReg₂ : RevocationRegistry C} {witness₂ : Witness C}

-- An exponent that the issuer has inverted in the first group, and made public in the second.
theorem pair_inv_smul {k : GroupOrderElement C} (hk : k ≠ 0) (x : PointG1 C) (y : PointG2 C) :
    C.pair (k⁻¹ • x) (k • y) = C.pair x y := by
  rw [Curve.pair_smul_left, Curve.pair_smul_right, inv_smul_smul₀ hk]

-- The signature of the issuer, blinded by the prover whose secrets it was made for.
theorem consistent_of_issued
    (hkeys : Issuer.newCredentialRevocationKeys genG1 genG2 keyDraws = (rPubKey, rPrivKey))
    (hpub : credPubKey.rKey = some rPubKey) (hpriv : credPrivKey.rKey = some rPrivKey)
    (hblinded : blinded.ur =
      some (Prover.generateBlindedRevocationCredentialSecrets rPubKey vrPrime).ur)
    (hissued : Issuer.newNonRevocationCredential i ctx blinded credPubKey credPrivKey L byDefault
      revReg₁ revKeyPriv accessor draws = .ok ((issued, published), revReg₁'))
    (hprocessed : Prover.processNonRevocationCredential issued vrPrime rPubKey revKeyPub revReg₂
      witness₂ = (result, rCred))
    (homega : C.pair rCred.gI revReg.accum = C.pair rPubKey.g witness.omega + revKeyPub.z) :
    ProofBuilder.Consistent rCred rPubKey revKeyPub revReg witness := by
  obtain ⟨hpubKey, hprivKey⟩ := Prod.mk.inj hkeys
  obtain ⟨ur, rPubKey', rPrivKey', m2, hur, hpub', hpriv', -, hx, hsk, rfl, -⟩ :=
    Issuer.newNonRevocationCredential_eq_ok hissued
  obtain rfl := Option.some.inj <| hpub.symm.trans hpub'
  obtain rfl := Option.some.inj <| hpriv.symm.trans hpriv'
  obtain rfl := Option.some.inj <| hblinded.symm.trans hur
  obtain ⟨-, rfl⟩ := Prod.mk.inj hprocessed
  have hpk : rPubKey.pk = rPrivKey.sk • rPubKey.g := by rw [← hpubKey, ← hprivKey]
  have hy : rPubKey.y = rPrivKey.x • rPubKey.hCap := by rw [← hpubKey, ← hprivKey]
  refine { accum := homega, witnessSignature := ?_, signature := ?_, gI_eq := rfl, u := ?_ }
  case refine_1 =>
    simp only [Issuer.nonRevocationSignature]
    rw [hpk, ← add_smul, Curve.pair_smul_left, Curve.pair_smul_right, smul_inv_smul₀ hsk]
  case refine_2 =>
    simp only [Issuer.nonRevocationSignature, Prover.generateBlindedRevocationCredentialSecrets]
    rw [hy, ← add_smul, pair_inv_smul hx, add_smul vrPrime]
    congr 1
    abel
  case refine_3 =>
    simp only [Issuer.nonRevocationSignature]
    rw [Curve.pair_smul_left, Curve.pair_smul_right]

theorem nonRevocationProof_complete
    (hkeys : Issuer.newCredentialRevocationKeys genG1 genG2 keyDraws = (rPubKey, rPrivKey))
    (hpub : credPubKey.rKey = some rPubKey) (hpriv : credPrivKey.rKey = some rPrivKey)
    (hblinded : blinded.ur =
      some (Prover.generateBlindedRevocationCredentialSecrets rPubKey vrPrime).ur)
    (hissued : Issuer.newNonRevocationCredential i ctx blinded credPubKey credPrivKey L byDefault
      revReg₁ revKeyPriv accessor draws = .ok ((issued, published), revReg₁'))
    (hprocessed : Prover.processNonRevocationCredential issued vrPrime rPubKey revKeyPub revReg₂
      witness₂ = (result, rCred))
    (homega : C.pair rCred.gI revReg.accum = C.pair rPubKey.g witness.omega + revKeyPub.z)
    (cListDraws : CListDraws C) (tauListParams : NonRevocProofXList C)
    (hchallenge : cHash.natAbs < 256 ^ 32) :
    let initProof := ProofBuilder.initNonRevocationProof rCred revReg rPubKey witness cListDraws
      tauListParams
    ∃ proof, ProofBuilder.finalizeNonRevocationProof initProof cHash = .ok proof ∧
      ProofVerifier.verifyNonRevocationProof rPubKey revReg revKeyPub cHash proof =
        .ok initProof.tauList :=
  ProofBuilder.verify_finalize
    (consistent_of_issued hkeys hpub hpriv hblinded hissued hprocessed homega)
    (bignumToGroupElement_eq_natAbs hchallenge) cListDraws tauListParams

end Issued

section Residues

open ProofVerifier (curveMod11 mod11 rPubKeyMod11)

def keyDrawsMod11 : Issuer.RevocationKeyDraws curveMod11 where
  h := mod11 2
  h0 := mod11 3
  h1 := mod11 4
  h2 := mod11 5
  htilde := mod11 6
  g := mod11 1
  u := mod11 7
  hCap := mod11 1
  x := mod11 4
  sk := mod11 3
  gDash := mod11 8

def cListDrawsMod11 : CListDraws curveMod11 where
  rho := mod11 1
  r := mod11 2
  rPrime := mod11 3
  rPrimePrime := mod11 4
  rPrimePrimePrime := mod11 5
  o := mod11 6
  oPrime := mod11 7

theorem nonRevocationProof_complete_mod11 :
    ∃ rCred proof, rCred.gI = mod11 2 ∧
      let initProof := ProofBuilder.initNonRevocationProof rCred ⟨mod11 10⟩ rPubKeyMod11 ⟨mod11 0⟩
        cListDrawsMod11 (.fromList [])
      ProofBuilder.finalizeNonRevocationProof initProof 5 = .ok proof ∧
        ProofVerifier.verifyNonRevocationProof rPubKeyMod11 ⟨mod11 10⟩ ⟨mod11 9⟩ 5 proof =
          .ok initProof.tauList := by
  let env : Env := .sorted (fun _ => List.replicate 32 0) fun _ => List.length_replicate
  let blinded : BlindedCredentialSecrets curveMod11 := { blindAge with ur := some (mod11 5) }
  obtain ⟨⟨⟨issued, published⟩, revReg⟩, hissued⟩ :
      ∃ result, Issuer.newNonRevocationCredential 1
        (Issuer.genCredentialContext env "prover" (some 1)) blinded setupMod11.credPubKey
        setupMod11.credPrivKey 2 true ⟨mod11 10⟩ setupMod11.revKeyPriv
        setupMod11.accessor.accessTail revocationDrawsMod11 = .ok result :=
    Issuer.newNonRevocationCredential_ok generator_mod11 accessor_mod11 (by decide) rfl rfl rfl
      (by decide) (by decide)
  have hkeys : Issuer.newCredentialRevocationKeys (mod11 1) (mod11 1) keyDrawsMod11 =
      (rPubKeyMod11, { x := mod11 4, sk := mod11 3 }) := rfl
  have hblinded : blinded.ur = some
      (Prover.generateBlindedRevocationCredentialSecrets rPubKeyMod11 (mod11 1)).ur := rfl
  obtain ⟨_, rPubKey, _, _, -, hpub, -, -, -, -, hform, -⟩ :=
    Issuer.newNonRevocationCredential_eq_ok hissued
  obtain rfl := Option.some.inj hpub
  have hgI : issued.gI = mod11 2 := hform ▸ rfl
  let revKeyPub : RevocationKeyPublic curveMod11 := ⟨mod11 9⟩
  let revReg : RevocationRegistry curveMod11 := ⟨mod11 10⟩
  let witness : Witness curveMod11 := ⟨mod11 0⟩
  obtain ⟨result, rCred, hprocessed⟩ : ∃ result rCred, Prover.processNonRevocationCredential issued
      (mod11 1) rPubKeyMod11 revKeyPub revReg witness = (result, rCred) := ⟨_, _, rfl⟩
  have hrCred : rCred.gI = mod11 2 := by
    rw [← hgI, ← (Prod.mk.inj hprocessed).2]
  have homega : curveMod11.pair rCred.gI revReg.accum =
      curveMod11.pair rPubKeyMod11.g witness.omega + revKeyPub.z := hrCred ▸ by decide
  obtain ⟨proof, h⟩ := nonRevocationProof_complete hkeys rfl rfl hblinded hissued hprocessed homega
    cListDrawsMod11 (.fromList []) (by decide : (5 : ℤ).natAbs < 256 ^ 32)
  exact ⟨rCred, proof, hrCred, h⟩

end Residues
end Ursa
