import Ursa.Cl.Theorems.Predicate
import Ursa.Cl.Theorems.Verification.Repetition

namespace Ursa

open BigNumber UrsaCryptoResult

section Helpers

variable {env : Env} {pPubKey : CredentialPrimaryPublicKey} {u r t mTilde : HashMap BigNumber}

theorem not_panics_calcTeq {aPrime e v m2tilde : BigNumber} {unrevealed : HashSet String} :
    ¬Panics (calcTeq pPubKey env aPrime e v mTilde m2tilde unrevealed) := by
  have hattr (k : String) (result : BigNumber) :
      ¬Panics (calcTeqAttr pPubKey mTilde result k) := by
    refine not_panics_bind not_panics_okOrElse fun _ _ => ?_
    refine not_panics_bind not_panics_okOrElse fun _ _ => ?_
    exact not_panics_bind not_panics_modExp fun _ _ => not_panics_modMul
  refine not_panics_bind not_panics_modExp fun _ _ => ?_
  refine not_panics_bind (not_panics_foldlM (fun k _ => hattr k) _) fun _ _ => ?_
  refine not_panics_bind not_panics_modExp fun _ _ => ?_
  refine not_panics_bind not_panics_modMul fun _ _ => ?_
  exact not_panics_bind not_panics_modExp fun _ _ => not_panics_modMul

theorem not_panics_calcTne {mj alpha : BigNumber} {isLess : Bool} :
    ¬Panics (calcTne pPubKey u r mj alpha t isLess) := by
  have hroot (i : ℕ) : ¬Panics (calcTneRoot pPubKey u r i) := by
    refine not_panics_bind not_panics_okOrElse fun _ _ => ?_
    refine not_panics_bind not_panics_okOrElse fun _ _ => ?_
    exact not_panics_getPedersenCommitment
  have hproduct (i : ℕ) (q : BigNumber) : ¬Panics (calcTneProduct pPubKey u t q i) := by
    refine not_panics_bind not_panics_okOrElse fun _ _ => ?_
    refine not_panics_bind not_panics_okOrElse fun _ _ => ?_
    exact not_panics_bind not_panics_modExp fun _ _ => not_panics_pure
  refine not_panics_bind (not_panics_mapM fun i _ => hroot i) fun _ _ => ?_
  refine not_panics_bind not_panics_okOrElse fun _ _ => ?_
  refine not_panics_bind not_panics_modExp fun _ _ => ?_
  refine not_panics_bind not_panics_modExp fun _ _ => ?_
  refine not_panics_bind not_panics_modMul fun _ _ => ?_
  refine not_panics_bind (not_panics_foldlM (fun i _ => hproduct i) _) fun _ _ => ?_
  refine not_panics_bind not_panics_modExp fun _ _ => ?_
  exact not_panics_bind not_panics_modMul fun _ _ => not_panics_pure

-- One number for each root, one for the difference and one for the product.
theorem length_calcTne {mj alpha : BigNumber} {isLess : Bool}
    (h : calcTne pPubKey u r mj alpha t isLess = .ok tauList) :
    tauList.length = iteration + 2 := by
  simp only [calcTne, bind_eq_ok_iff, pure_eq_ok_iff] at h
  obtain ⟨roots, hroots, _, -, _, -, _, -, _, -, _, -, _, -, _, -, rfl⟩ := h
  have hlen := (mapM_eq_ok_iff.mp hroots).length_eq
  rw [List.length_append, ← hlen, List.length_range]
  rfl

theorem not_panics_bignumToGroupElement {C : Curve} {num : BigNumber} :
    ¬Panics (bignumToGroupElement C num) := by
  unfold bignumToGroupElement GroupOrderElement.fromBytes
  split
  · exact not_panics_err
  · exact not_panics_ok

end Helpers

namespace ProofVerifier

variable {C : Curve} {env : Env} {pPubKey : CredentialPrimaryPublicKey} {cHash : BigNumber}

theorem not_panics_withChallenge {base tau n : BigNumber} :
    ¬Panics (withChallenge base cHash tau n) := by
  refine not_panics_bind not_panics_modExp fun _ _ => ?_
  exact not_panics_bind not_panics_inverse fun _ _ => not_panics_modMul

theorem not_panics_verifyEquality {proof : PrimaryEqualProof} {credSchema : CredentialSchema}
    {nonCredSchema : NonCredentialSchema} {subProofRequest : SubProofRequest} :
    ¬Panics (verifyEquality env pPubKey proof cHash credSchema nonCredSchema subProofRequest) := by
  have hattr (entry) (rar : BigNumber) : ¬Panics (verifyRevealedAttr pPubKey rar entry) := by
    refine not_panics_bind not_panics_okOrElse fun _ _ => ?_
    exact not_panics_bind not_panics_modExp fun _ _ => not_panics_modMul
  refine not_panics_bind not_panics_calcTeq fun _ _ => ?_
  refine not_panics_bind not_panics_modExp fun _ _ => ?_
  refine not_panics_bind (not_panics_foldlM (fun entry _ => hattr entry) _) fun _ _ => ?_
  refine not_panics_bind not_panics_modDiv fun _ _ => ?_
  refine not_panics_bind not_panics_inverse fun _ _ => ?_
  refine not_panics_bind not_panics_modExp fun _ _ => ?_
  exact not_panics_bind not_panics_modMul fun _ _ => not_panics_pure

theorem not_panics_verifyNePredicate {proof : PrimaryPredicateInequalityProof} :
    ¬Panics (verifyNePredicate pPubKey proof cHash) := by
  refine not_panics_bind not_panics_calcTne fun tauList htauList => ?_
  have hindex {i : ℕ} (hi : i < iteration + 2) : ¬Panics (index tauList i) := by
    rw [panics_index_iff, length_calcTne htauList]
    exact Nat.not_le.mpr hi
  have hroot : ∀ i ∈ List.range iteration,
      ¬Panics (verifyNeRoot pPubKey proof.t cHash tauList i) := by
    intro i hi
    have hlt := List.mem_range.mp hi
    refine not_panics_bind not_panics_okOrElse fun _ _ => ?_
    exact not_panics_bind (hindex (by omega)) fun _ _ => not_panics_withChallenge
  have hdelta {delta : BigNumber} :
      ¬Panics (directDelta proof.predicate.isLess delta pPubKey.n) := by
    unfold directDelta
    split
    · exact not_panics_inverse
    · exact not_panics_ok
  refine not_panics_bind (not_panics_mapM hroot) fun _ _ => ?_
  refine not_panics_bind not_panics_okOrElse fun _ _ => ?_
  refine not_panics_bind hdelta fun _ _ => ?_
  refine not_panics_bind not_panics_modExp fun _ _ => ?_
  refine not_panics_bind (hindex (by omega)) fun _ _ => ?_
  refine not_panics_bind not_panics_withChallenge fun _ _ => ?_
  refine not_panics_bind (hindex (by omega)) fun _ _ => ?_
  exact not_panics_bind not_panics_withChallenge fun _ _ => not_panics_pure

theorem not_panics_verifyPrimaryProof {proof : PrimaryProof} {credSchema : CredentialSchema}
    {nonCredSchema : NonCredentialSchema} {subProofRequest : SubProofRequest} :
    ¬Panics (verifyPrimaryProof env pPubKey cHash proof credSchema nonCredSchema
      subProofRequest) := by
  refine not_panics_bind not_panics_verifyEquality fun _ _ => ?_
  refine not_panics_bind (not_panics_mapM fun _ _ => not_panics_verifyNePredicate) fun _ _ => ?_
  exact not_panics_pure

variable {proofItem : SubProof C} {credential : VerifiableCredential C}
  {common : HashMap (Option BigNumber)}

theorem not_panics_verifyNonRevocationPart :
    ¬Panics (verifyNonRevocationPart cHash proofItem credential) := by
  unfold verifyNonRevocationPart
  split
  · refine not_panics_bind ?_ fun _ _ => not_panics_pure
    exact not_panics_bind not_panics_bignumToGroupElement fun _ _ => not_panics_pure
  · exact not_panics_pure

theorem not_panics_checkCommonAttributes (m : HashMap BigNumber) (attrNames : List String)
    (common : HashMap (Option BigNumber)) :
    ¬Panics (checkCommonAttributes m attrNames common).1 := by
  induction attrNames generalizing common
  case nil => exact not_panics_ok
  case cons attrName attrNames hi =>
    have hattr : ¬Panics (checkCommonAttribute m common attrName) := by
      unfold checkCommonAttribute
      split
      case h_1 => exact not_panics_err
      case h_2 =>
        split
        case h_1 =>
          split
          · exact not_panics_err
          · exact not_panics_ok
        case h_2 => exact not_panics_ok
        case h_3 => exact not_panics_ok
    rw [checkCommonAttributes]
    cases h : checkCommonAttribute m common attrName with
    | error e   => exact not_panics_error hattr h
    | ok common => exact hi common

theorem not_panics_verifySubProof :
    ¬Panics (verifySubProof env cHash proofItem credential common).1 := by
  unfold verifySubProof
  split
  case h_1 h => exact not_panics_error not_panics_verifyNonRevocationPart h
  case h_2 =>
    have hcommon := not_panics_checkCommonAttributes proofItem.primaryProof.eqProof.m
      (env.hashOrder common.keys) common
    split
    case h_1 h => exact not_panics_error hcommon <| congrArg Prod.fst h
    case h_2 =>
      split
      case h_1 h => exact not_panics_error not_panics_verifyPrimaryProof h
      case h_2 => exact not_panics_ok

theorem not_panics_verifySubProofs (items : List (SubProof C × VerifiableCredential C))
    (common : HashMap (Option BigNumber)) : ¬Panics (verifySubProofs env cHash items common).1 := by
  induction items generalizing common
  case nil => exact not_panics_ok
  case cons item items hi =>
    unfold verifySubProofs
    split
    case h_1 h => exact not_panics_error not_panics_verifySubProof <| congrArg Prod.fst h
    case h_2 common' _ =>
      split
      case h_1 h => exact not_panics_error (hi common') <| congrArg Prod.fst h
      case h_2 => exact not_panics_ok

theorem not_panics_checkVerifyParamsConsistency {credentials : List (VerifiableCredential C)}
    {proof : Proof C} : ¬Panics (checkVerifyParamsConsistency credentials proof) := by
  unfold checkVerifyParamsConsistency
  split
  · exact not_panics_err
  · refine not_panics_forM fun item _ => ?_
    unfold checkSubProofParamsConsistency
    dsimp only
    split
    · exact not_panics_err
    · split
      · exact not_panics_err
      · exact not_panics_ok

variable {self : ProofVerifier C} {proof : Proof C} {nonce : Nonce}

theorem not_panics_verify : ¬Panics (self.verify env proof nonce).1 := by
  unfold verify
  split
  case h_1 h => exact not_panics_error not_panics_checkVerifyParamsConsistency h
  case h_2 =>
    split
    case h_1 h => exact not_panics_error (not_panics_verifySubProofs _ _) <| congrArg Prod.fst h
    case h_2 => exact not_panics_ok

-- The checks before the loop make its indices valid.
theorem index_credentials (h : checkVerifyParamsConsistency self.credentials proof = .ok ())
    (hidx : idx < proof.proofs.length) : ∃ proofItem credential,
      index proof.proofs idx = .ok proofItem ∧ index self.credentials idx = .ok credential ∧
      (proof.proofs.zip self.credentials)[idx]? = some (proofItem, credential) := by
  have hlt : idx < self.credentials.length :=
    (checkVerifyParamsConsistency_ok_iff.mp h).1 ▸ hidx
  refine ⟨proof.proofs[idx], self.credentials[idx], ?_, ?_, ?_⟩
  · exact index_eq_ok_iff.mpr <| List.getElem?_eq_getElem hidx
  · exact index_eq_ok_iff.mpr <| List.getElem?_eq_getElem hlt
  · exact List.getElem?_zip_eq_some.mpr
      ⟨List.getElem?_eq_getElem hidx, List.getElem?_eq_getElem hlt⟩

-- The bounds that are computed are those of the requests.
theorem mem_predicates (h : checkVerifyParamsConsistency self.credentials proof = .ok ())
    (hitem : proofItem ∈ proof.proofs) (hne : neProof ∈ proofItem.primaryProof.neProofs) :
    ∃ credential ∈ self.credentials, neProof.predicate ∈ credential.subProofRequest.predicates := by
  obtain ⟨hlen, hitems⟩ := checkVerifyParamsConsistency_ok_iff.mp h
  rw [← List.map_fst_zip hlen.le, List.mem_map] at hitem
  obtain ⟨⟨_, credential⟩, hmem, rfl⟩ := hitem
  refine ⟨credential, (List.of_mem_zip hmem).2, ?_⟩
  rw [← (checkSubProofParamsConsistency_ok_iff.mp <| hitems _ hmem).2, List.mem_toFinset]
  exact List.mem_map_of_mem hne

-- A call that does not panic. The loop of `verify` goes over the pairs of a sub proof and its
-- credential, which the source finds by their index, and computes the bounds without overflow.
structure Robust (env : Env) (self : ProofVerifier C) (proof : Proof C) (nonce : Nonce) : Prop where
  returns : ¬Panics (self.verify env proof nonce).1
  indexed : checkVerifyParamsConsistency self.credentials proof = .ok () →
    ∀ idx < proof.proofs.length, ∃ proofItem credential,
      index proof.proofs idx = .ok proofItem ∧ index self.credentials idx = .ok credential ∧
      (proof.proofs.zip self.credentials)[idx]? = some (proofItem, credential)
  bounded : checkVerifyParamsConsistency self.credentials proof = .ok () →
    ∀ proofItem ∈ proof.proofs, ∀ neProof ∈ proofItem.primaryProof.neProofs,
      neProof.predicate.NoOverflow

theorem verify_robust (env : Env) (self : ProofVerifier C)
    (hbounds : ∀ credential ∈ self.credentials, ∀ p ∈ credential.subProofRequest.predicates,
      p.NoOverflow) (proof : Proof C) (nonce : Nonce) : Robust env self proof nonce where
  returns := not_panics_verify
  indexed hcheck _ hidx := index_credentials hcheck hidx
  bounded hcheck _ hitem _ hne := by
    obtain ⟨credential, hcredential, hp⟩ := mem_predicates hcheck hitem hne
    exact hbounds credential hcredential _ hp

-- The verifier asks for a comparison, and is given 0 for everything.
def rangeCredential : VerifiableCredential curveMod11 :=
  { linkedCredential with subProofRequest := ⟨∅, {⟨"age", .GT, 18⟩}⟩ }

def rangeVerifier : ProofVerifier curveMod11 where
  credentials := [rangeCredential]
  commonAttributes := (∅ : HashMap (Option BigNumber)).insert "age" none

theorem verify_robust_range :
    Robust suffixEnv rangeVerifier (probe rangeVerifier.credentials ∅ 0) 1 := by
  refine verify_robust suffixEnv rangeVerifier (fun credential hcredential p hp => ?_) _ _
  obtain rfl : credential = rangeCredential := List.mem_singleton.mp hcredential
  obtain rfl : p = ⟨"age", .GT, 18⟩ := Finset.mem_singleton.mp hp
  decide

end ProofVerifier
end Ursa
