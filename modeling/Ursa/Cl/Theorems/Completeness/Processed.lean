import Ursa.Cl.Theorems.Completeness.Presentation
import Ursa.Cl.Theorems.Revocation.Holders

namespace Ursa

open BigNumber UrsaCryptoResult
open Prover (isSigned signedEntries)

variable {C : Curve} {env : Env} {isPrime : BigNumber → UrsaCryptoResult Bool}

-- The public key of any issuer: its elements have inverses.
structure CredentialPrimaryPublicKey.Invertible (pPubKey : CredentialPrimaryPublicKey) : Prop where
  n : 1 < pPubKey.n.natAbs
  s : Int.gcd pPubKey.s pPubKey.n = 1
  z : Int.gcd pPubKey.z pPubKey.n = 1
  rctxt : Int.gcd pPubKey.rctxt pPubKey.n = 1
  r : ∀ a x, pPubKey.r.lookup a = some x → Int.gcd x pPubKey.n = 1

section Primary

variable {pPubKey : CredentialPrimaryPublicKey} {pCred : PrimaryCredentialSignature}
variable {values : CredentialValues} {proof : SignatureCorrectnessProof} {nonce : Nonce}

end Primary

namespace Request

variable {r : Request C} {names : List String}

-- The credential of the request has come through the processing of the prover.
def Accepted (r : Request C) : Prop :=
  ∃ env isPrime issued correctness factors nonce revKeyPub revReg witness,
    isPrime 0 ≠ .ok true ∧
      Prover.processCredentialSignature env isPrime issued r.holding.values correctness factors
        r.credential.pubKey nonce revKeyPub revReg witness = (.ok (), r.holding.signature)

theorem Accepted.check (h : r.Accepted) :
    ∃ env isPrime correctness nonce, isPrime 0 ≠ .ok true ∧
      Prover.checkSignatureCorrectnessProof env isPrime r.holding.signature.pCredential
        r.holding.values correctness r.pKey nonce = .ok () := by
  obtain ⟨env, isPrime, issued, correctness, factors, nonce, revKeyPub, revReg, witness, hzero,
    hprocessed⟩ := h
  refine ⟨env, isPrime, correctness, nonce, hzero, ?_⟩
  unfold Prover.processCredentialSignature at hprocessed
  dsimp only at hprocessed
  split at hprocessed
  case h_1 => cases (Prod.mk.inj hprocessed).left
  case h_2 hcheck =>
    split at hprocessed
    all_goals
      obtain ⟨-, hsignature⟩ := Prod.mk.inj hprocessed
      rw [← hsignature]
      exact hcheck

end Request

section Mod77

end Mod77

section Recovered

variable {rPubKey : CredentialRevocationPublicKey C} {revKeyPub : RevocationKeyPublic C}
variable {issued rCred : NonRevocationCredentialSignature C} {revReg : RevocationRegistry C}
variable {witness : Witness C} {c : GroupOrderElement C}

theorem bignumToGroupElement_groupElementToBignum {el el' : GroupOrderElement C}
    (h : bignumToGroupElement C (groupElementToBignum el) = .ok el') : el' = el := by
  rw [bignumToGroupElement, GroupOrderElement.fromBytes, ite_error_eq_ok_iff] at h
  obtain ⟨-, h⟩ := h
  rw [← Except.ok.inj h, BigNumber.fromBytes, magnitude_toBytes, groupElementToBignum_eq,
    Int.natAbs_natCast, Int.cast_natCast, ZMod.natCast_zmod_val]

-- What the prover tests when it takes the non-revocation part of a credential.
theorem Prover.equations_of_processed (h : processNonRevocationCredential issued vrPrime rPubKey
    revKeyPub revReg witness = (.ok (), rCred)) :
    WitnessSignatureEquations rCred rPubKey revKeyPub revReg witness rCred.m2 := by
  obtain ⟨htest, rfl⟩ := Prod.mk.inj h
  obtain ⟨m2, hm2⟩ : ∃ m2, bignumToGroupElement C (groupElementToBignum issued.m2) = .ok m2 := by
    unfold testWitnessSignature at htest
    dsimp only at htest
    split_ifs at htest
    obtain ⟨m2, hm2, -⟩ := bind_eq_ok_iff.mp htest
    exact ⟨m2, hm2⟩
  have hequations := (testWitnessSignature_eq_ok_iff hm2).mp htest
  rwa [bignumToGroupElement_groupElementToBignum hm2] at hequations

-- The last of the values of the verifier is the one that `u_i` is in.
theorem ProofBuilder.u_of_expected {params : NonRevocProofXList C}
    (h : (createTauListExpectedValues rPubKey revReg revKeyPub
        (createCListValues rCred params rPubKey witness)).t8 =
      (createTauListValues rPubKey revReg params
        (createCListValues rCred params rPubKey witness)).t8) :
    C.pair rCred.gI rPubKey.u = C.pair rPubKey.g rCred.witnessSignature.uI := by
  simp only [createTauListExpectedValues, createTauListValues, createCListValues,
    Curve.pair_add_left, Curve.pair_add_right, Curve.pair_smul_left, Curve.pair_smul_right,
    Curve.pair_neg_left] at h
  rw [← sub_eq_zero] at h ⊢
  rw [← h]
  module

-- The prover does not test `u_i`, and takes `g_i` from either of its two places: with an issuer who
-- errs there, it keeps a credential that no proof comes out of.
theorem processed_recovered_iff
    (hprocessed : Prover.processNonRevocationCredential issued vrPrime rPubKey revKeyPub revReg
      witness = (.ok (), rCred))
    (hc : bignumToGroupElement C cHash = .ok c) (hne : c ≠ 0) (draws : CListDraws C)
    (tauListParams : NonRevocProofXList C) :
    let initProof := ProofBuilder.initNonRevocationProof rCred revReg rPubKey witness draws
      tauListParams
    ∃ proof tau, ProofBuilder.finalizeNonRevocationProof initProof cHash = .ok proof ∧
      ProofVerifier.verifyNonRevocationProof rPubKey revReg revKeyPub cHash proof = .ok tau ∧
      (tau = initProof.tauList ↔
        C.pair rCred.gI revReg.accum = C.pair rCred.witnessSignature.gI revReg.accum ∧
          C.pair rCred.gI rPubKey.u = C.pair rPubKey.g rCred.witnessSignature.uI) := by
  have hequations := Prover.equations_of_processed hprocessed
  intro initProof
  obtain ⟨proof, tau, hproof, htau, hrecovered⟩ :=
    ProofBuilder.recovered_iff_expected hc hne draws tauListParams
  refine ⟨proof, tau, hproof, htau, hrecovered.trans ?_⟩
  constructor
  case mp =>
    intro hexpected
    have hholds := ProofBuilder.holds_of_expected <| congrArg (·.t4) hexpected
    exact ⟨hholds.trans hequations.accum.symm, ProofBuilder.u_of_expected <|
      congrArg (·.t8) hexpected⟩
  case mpr =>
    rintro ⟨haccum, hu⟩
    -- The builder reads `g_i` from one of its places only.
    let consistent := { rCred with witnessSignature.gI := rCred.gI }
    have hconsistent : ProofBuilder.Consistent consistent rPubKey revKeyPub revReg witness :=
      { accum := haccum.trans hequations.accum
        witnessSignature := hequations.witnessSignature
        signature := hequations.signature
        gI_eq := rfl
        u := hu }
    exact ProofBuilder.createTauListExpectedValues_honest hconsistent draws

open ProofVerifier (curveMod11 mod11 rPubKeyMod11)

-- The signature for the index 1 with `u_i` at 0, where the issuer puts 3.
theorem processed_recovered_iff_mod11 :
    let issued : NonRevocationCredentialSignature curveMod11 :=
      { sigma := mod11 6, c := mod11 1, vrPrimePrime := mod11 1, gI := mod11 2, i := 1, m2 := mod11 5
        witnessSignature := { sigmaI := mod11 6, uI := mod11 0, gI := mod11 2 } }
    ∃ rCred, Prover.processNonRevocationCredential issued (mod11 0) rPubKeyMod11 ⟨mod11 9⟩
        ⟨mod11 10⟩ ⟨mod11 0⟩ = (.ok (), rCred) ∧
      let initProof := ProofBuilder.initNonRevocationProof rCred ⟨mod11 10⟩ rPubKeyMod11 ⟨mod11 0⟩
        cListDrawsMod11 (.fromList [])
      ∃ proof tau, ProofBuilder.finalizeNonRevocationProof initProof 5 = .ok proof ∧
        ProofVerifier.verifyNonRevocationProof rPubKeyMod11 ⟨mod11 10⟩ ⟨mod11 9⟩ 5 proof = .ok tau ∧
        tau ≠ initProof.tauList := by
  intro issued
  obtain ⟨result, rCred, hprocessed⟩ : ∃ result rCred, Prover.processNonRevocationCredential issued
      (mod11 0) rPubKeyMod11 ⟨mod11 9⟩ ⟨mod11 10⟩ ⟨mod11 0⟩ = (result, rCred) := ⟨_, _, rfl⟩
  obtain ⟨hresult, hrCred⟩ := Prod.mk.inj hprocessed
  obtain rfl : result = .ok () := hresult ▸ by decide +kernel
  have hu : curveMod11.pair rCred.gI rPubKeyMod11.u ≠
      curveMod11.pair rPubKeyMod11.g rCred.witnessSignature.uI := hrCred ▸ by decide
  obtain ⟨proof, tau, hproof, htau, hrecovered⟩ := processed_recovered_iff hprocessed
    (rfl : bignumToGroupElement curveMod11 5 = .ok (mod11 5)) (by decide) cListDrawsMod11
    (.fromList [])
  exact ⟨rCred, hprocessed, proof, tau, hproof, htau, fun heq => hu (hrecovered.mp heq).right⟩

end Recovered

end Ursa
