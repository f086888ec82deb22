import Ursa.Cl.Theorems.Completeness.Issuance
import Ursa.Cl.Theorems.Hiding.Presentation

namespace Ursa
namespace Issuer

open BigNumber UrsaCryptoResult

variable {C : Curve}

theorem not_panics_signPrimaryCredential {pubKey : CredentialPublicKey C}
    {privKey : CredentialPrivateKey C} {context v e : BigNumber} {values : CredentialValues}
    {secrets : BlindedCredentialSecrets C} :
    ¬Panics (signPrimaryCredential pubKey privKey context values v secrets e) := by
  have hblinded (rx : BigNumber) : ¬Panics (signBlinded rx secrets.u pubKey.pKey.n) := by
    unfold signBlinded
    split
    · exact not_panics_modMul
    · exact not_panics_ok
  have hknown (entry) (rx : BigNumber) : ¬Panics (signKnownAttr pubKey.pKey rx entry) :=
    not_panics_bind not_panics_okOrElse fun _ _ =>
      not_panics_bind not_panics_modExp fun _ _ => not_panics_modMul
  refine not_panics_bind not_panics_modExp fun _ _ => not_panics_bind (hblinded _) fun _ _ => ?_
  refine not_panics_bind not_panics_modExp fun _ _ => ?_
  refine not_panics_bind not_panics_modMul fun _ _ => ?_
  refine not_panics_bind (not_panics_foldlM (fun entry _ => hknown entry) _) fun _ _ => ?_
  refine not_panics_bind not_panics_modDiv fun _ _ => ?_
  refine not_panics_bind not_panics_inverse fun _ _ => ?_
  exact not_panics_bind not_panics_modExp fun _ _ => not_panics_pure

theorem not_panics_newSignatureCorrectnessProof {env : Env}
    {pPubKey : CredentialPrimaryPublicKey} {pPrivKey : CredentialPrimaryPrivateKey}
    {signature : PrimaryCredentialSignature} {q nonce : BigNumber} {draw : ℕ} :
    ¬Panics (newSignatureCorrectnessProof env pPubKey pPrivKey signature q nonce draw) := by
  have hrange : ¬Panics (bnRandRange (pPrivKey.p * pPrivKey.q) draw) := by
    unfold bnRandRange
    split
    · exact not_panics_ok
    · exact not_panics_err
  refine not_panics_bind hrange fun _ _ => not_panics_bind not_panics_modExp fun _ _ => ?_
  refine not_panics_bind not_panics_inverse fun _ _ => ?_
  refine not_panics_bind not_panics_modMul fun _ _ => ?_
  exact not_panics_bind not_panics_modSub fun _ _ => not_panics_pure

section Check

variable (secrets : BlindedCredentialSecrets C) (proof : BlindedCredentialSecretsCorrectnessProof)
  (pPubKey : CredentialPrimaryPublicKey)

-- The numbers with which the fold over the hidden attributes starts exist.
def Starts : Prop :=
  1 < pPubKey.n.natAbs ∧ Int.gcd secrets.u pPubKey.n = 1 ∧
    PowDefined pPubKey.s proof.vDashCap pPubKey.n

-- The round of a hidden attribute has its factor.
def HiddenPasses (a : String) : Prop :=
  ∃ r mCap, pPubKey.r.lookup a = some r ∧ proof.mCaps.lookup a = some mCap ∧
    PowDefined r mCap pPubKey.n

-- The round of a committed attribute has its factors.
def CommittedPasses (entry : String × BigNumber) : Prop :=
  Int.gcd entry.2 pPubKey.n = 1 ∧
    ∃ mCap rCap, proof.mCaps.lookup entry.1 = some mCap ∧ proof.rCaps.lookup entry.1 = some rCap ∧
      PowDefined pPubKey.z mCap pPubKey.n ∧ PowDefined pPubKey.s rCap pPubKey.n

-- What the round of a committed attribute looks up is there.
def CommittedIndexed (entry : String × BigNumber) : Prop :=
  entry.1 ∈ proof.mCaps ∧ (Int.gcd entry.2 pPubKey.n = 1 → entry.1 ∈ proof.rCaps)

-- Every response that the check comes to look up is there. The rounds of the hidden attributes all
-- take place, those of the committed attributes end at the first that fails.
structure Indexed : Prop where
  hidden : ∀ a ∈ secrets.hiddenAttributes, a ∈ pPubKey.r → a ∈ proof.mCaps
  committed : (∀ a ∈ secrets.hiddenAttributes, HiddenPasses proof pPubKey a) →
    ∀ a value, secrets.committedAttributes.lookup a = some value →
      (∀ a' < a, ∀ value', secrets.committedAttributes.lookup a' = some value' →
        CommittedPasses proof pPubKey (a', value')) →
      CommittedIndexed proof pPubKey (a, value)

variable {secrets proof pPubKey}

theorem panics_checkHiddenAttr_iff {acc : UrsaCryptoResult BigNumber} (hacc : ¬Panics acc) :
    Panics (checkHiddenAttr pPubKey proof.mCaps acc a) ↔ a ∈ pPubKey.r ∧ a ∉ proof.mCaps := by
  rw [← Finmap.lookup_isSome, ← Finmap.lookup_eq_none, checkHiddenAttr]
  cases pPubKey.r.lookup a with
  | none   => exact iff_of_false not_panics_err fun h => Bool.false_ne_true h.1
  | some r =>
    cases proof.mCaps.lookup a with
    | none      => exact iff_of_true ⟨_, rfl⟩ ⟨rfl, rfl⟩
    | some mCap =>
      simp only [okOrElse, ok_bind]
      refine iff_of_false (not_panics_bind hacc fun _ _ => ?_) fun h => Option.some_ne_none mCap h.2
      exact not_panics_bind not_panics_modExp fun _ _ => not_panics_modMul

theorem checkHiddenAttr_ok_iff (hn : pPubKey.n ≠ 0) {acc : UrsaCryptoResult BigNumber} :
    (∃ y, checkHiddenAttr pPubKey proof.mCaps acc a = .ok y) ↔
      (∃ x, acc = .ok x) ∧ HiddenPasses proof pPubKey a := by
  simp only [checkHiddenAttr, bind_eq_ok_iff, okOrElse_eq_ok_iff]
  constructor
  case mp =>
    rintro ⟨-, r, hr, mCap, hmCap, x, hx, power, hpower, -⟩
    exact ⟨⟨x, hx⟩, r, mCap, hr, hmCap, (modExp_ok_iff.mp ⟨power, hpower⟩).2⟩
  case mpr =>
    rintro ⟨⟨x, hx⟩, r, mCap, hr, hmCap, hdefined⟩
    obtain ⟨power, hpower⟩ := modExp_ok_iff.mpr ⟨hn, hdefined⟩
    obtain ⟨y, hy⟩ := modMul_ok hn x power
    exact ⟨y, r, hr, mCap, hmCap, x, hx, power, hpower, hy⟩

-- The inverse of a committed value has every power.
theorem inverse_power_ok {n value : ℤ} (hn : 1 < n.natAbs) (h : Int.gcd value n = 1)
    (c : BigNumber) : ∃ inverse power, BigNumber.inverse value n = .ok inverse ∧
      inverse.modExp c n = .ok power := by
  obtain ⟨inverse, hinverse⟩ := inverse_ok_iff.mpr ⟨hn, h⟩
  obtain ⟨u, hu⟩ := inverse_isUnit hinverse
  have hunit := inverse_unit hinverse hu.symm
  obtain ⟨power, hpower⟩ := modExp_ok_of_isUnit (e := c) hn (hunit ▸ u⁻¹.isUnit)
  exact ⟨inverse, power, hinverse, hpower⟩

theorem panics_checkCommittedAttr_iff (hn : 1 < pPubKey.n.natAbs) {values : List UInt8} :
    Panics (checkCommittedAttr pPubKey proof values (a, value)) ↔
      ¬CommittedIndexed proof pPubKey (a, value) := by
  rw [CommittedIndexed, ← Finmap.lookup_isSome, ← Finmap.lookup_isSome, checkCommittedAttr]
  cases proof.mCaps.lookup a with
  | none      => exact iff_of_true ⟨_, rfl⟩ fun h => Bool.false_ne_true h.1
  | some mCap =>
    simp only [okOrElse, ok_bind]
    by_cases hvalue : Int.gcd value pPubKey.n = 1
    case neg =>
      refine iff_of_false (not_panics_bind not_panics_inverse fun inverse hinverse => ?_) ?_
      · exact absurd (inverse_ok_iff.mp ⟨inverse, hinverse⟩).2 hvalue
      · exact not_not.mpr ⟨rfl, fun h => absurd h hvalue⟩
    case pos =>
      obtain ⟨inverse, power, hinverse, hpower⟩ := inverse_power_ok hn hvalue proof.c
      simp only [hinverse, hpower, ok_bind]
      cases proof.rCaps.lookup a with
      | none      => exact iff_of_true ⟨_, rfl⟩ fun h => Bool.false_ne_true <| h.2 hvalue
      | some rCap =>
        simp only [ok_bind]
        refine iff_of_false ?_ <| not_not.mpr ⟨rfl, fun _ => rfl⟩
        refine not_panics_bind not_panics_getPedersenCommitment fun _ _ => ?_
        exact not_panics_bind not_panics_modMul fun _ _ => not_panics_pure

theorem checkCommittedAttr_ok_iff (hn : 1 < pPubKey.n.natAbs) {values : List UInt8} :
    (∃ values', checkCommittedAttr pPubKey proof values (a, value) = .ok values') ↔
      CommittedPasses proof pPubKey (a, value) := by
  have hn₀ := ne_zero_of_one_lt hn
  simp only [checkCommittedAttr, bind_eq_ok_iff, okOrElse_eq_ok_iff]
  constructor
  case mp =>
    rintro ⟨-, mCap, hmCap, inverse, hinverse, -, -, rCap, hrCap, commitment, hcommitment, -⟩
    rw [getPedersenCommitment, bind_eq_ok_iff] at hcommitment
    obtain ⟨x, hx, hcommitment⟩ := hcommitment
    obtain ⟨y, hy, -⟩ := bind_eq_ok_iff.mp hcommitment
    exact ⟨(inverse_ok_iff.mp ⟨inverse, hinverse⟩).2, mCap, rCap, hmCap, hrCap,
      (modExp_ok_iff.mp ⟨x, hx⟩).2, (modExp_ok_iff.mp ⟨y, hy⟩).2⟩
  case mpr =>
    rintro ⟨hvalue, mCap, rCap, hmCap, hrCap, hm, hr⟩
    obtain ⟨inverse, power, hinverse, hpower⟩ := inverse_power_ok hn hvalue proof.c
    obtain ⟨commitment, hcommitment⟩ := getPedersenCommitment_ok hn₀ hm hr
    obtain ⟨cap, hcap⟩ := modMul_ok hn₀ power commitment
    exact ⟨_, mCap, hmCap, inverse, hinverse, power, hpower, rCap, hrCap, commitment, hcommitment,
      cap, hcap, rfl⟩

theorem panics_hidden_iff {start : BigNumber} :
    Panics (foldResult (checkHiddenAttr pPubKey proof.mCaps) (.ok start)
      (BTreeSet.iter secrets.hiddenAttributes)) ↔
      ∃ a ∈ secrets.hiddenAttributes, a ∈ pPubKey.r ∧ a ∉ proof.mCaps := by
  rw [panics_foldResult_iff (f := checkHiddenAttr pPubKey proof.mCaps)
    fun _ hacc _ _ => panics_checkHiddenAttr_iff hacc, or_iff_right not_panics_ok]
  simp only [BTreeSet.mem_iter]

theorem hidden_ok_iff (hn : pPubKey.n ≠ 0) {start : BigNumber} :
    (∃ uCap, foldResult (checkHiddenAttr pPubKey proof.mCaps) (.ok start)
      (BTreeSet.iter secrets.hiddenAttributes) = .ok uCap) ↔
      ∀ a ∈ secrets.hiddenAttributes, HiddenPasses proof pPubKey a := by
  rw [foldResult_ok_iff (f := checkHiddenAttr pPubKey proof.mCaps)
    fun _ _ _ => checkHiddenAttr_ok_iff hn]
  simp only [BTreeSet.mem_iter, Except.ok.injEq, exists_eq', true_and]

theorem panics_committed_iff (hn : 1 < pPubKey.n.natAbs) {values : List UInt8} :
    Panics (secrets.committedAttributes.iter.foldlM (checkCommittedAttr pPubKey proof) values) ↔
      ∃ a value, secrets.committedAttributes.lookup a = some value ∧
        ¬CommittedIndexed proof pPubKey (a, value) ∧
        ∀ a' < a, ∀ value', secrets.committedAttributes.lookup a' = some value' →
          CommittedPasses proof pPubKey (a', value') := by
  rw [panics_foldlM_iff (f := checkCommittedAttr pPubKey proof) (BTreeMap.pairwise_iter _)
    (fun _ _ => lt_asymm)
    (fun _ _ _ => checkCommittedAttr_ok_iff hn) (fun _ _ _ => panics_checkCommittedAttr_iff hn)]
  simp only [Prod.exists, Prod.forall, BTreeMap.mem_iter]
  refine exists₂_congr fun a value => and_congr_right fun _ => and_congr_right fun _ => ?_
  exact forall_congr' fun a' => ⟨fun h hlt v hv => h v hv hlt, fun h v hv hlt => h hlt v hv⟩

theorem panics_check_iff {env : Env} {nonce : Nonce} :
    Panics (checkBlindedCredentialSecretsCorrectnessProof env secrets proof nonce pPubKey) ↔
      Starts secrets proof pPubKey ∧ ¬Indexed secrets proof pPubKey := by
  rw [checkBlindedCredentialSecretsCorrectnessProof]
  by_cases hstarts : Starts secrets proof pPubKey
  case neg =>
    refine iff_of_false (not_panics_bind not_panics_inverse fun inverse hinverse => ?_)
      fun h => hstarts h.1
    obtain ⟨hn, hu⟩ := inverse_ok_iff.mp ⟨inverse, hinverse⟩
    refine not_panics_bind not_panics_modExp fun _ _ =>
      not_panics_bind not_panics_modExp fun blinding hblinding => ?_
    exact absurd ⟨hn, hu, (modExp_ok_iff.mp ⟨blinding, hblinding⟩).2⟩ hstarts
  case pos =>
    obtain ⟨hn, hu, hv⟩ := id hstarts
    have hn₀ := ne_zero_of_one_lt hn
    obtain ⟨inverse, power, hinverse, hpower⟩ := inverse_power_ok hn hu proof.c
    obtain ⟨blinding, hblinding⟩ := modExp_ok_iff.mpr ⟨hn₀, hv⟩
    obtain ⟨start, hstart⟩ := modMul_ok hn₀ power blinding
    simp only [hinverse, hpower, hblinding, hstart, ok_bind]
    have htail (values : List UInt8) : ¬Panics (if proof.c ≠ getHashAsInt env [values] then
        .error <| .err .invalidStructure "Invalid BlindedCredentialSecrets correctness proof"
        else .ok () : UrsaCryptoResult Unit) := by
      split
      · exact not_panics_err
      · exact not_panics_ok
    simp only [panics_bind_iff, htail, panics_hidden_iff, panics_committed_iff hn, and_false,
      exists_false, or_false, exists_and_right, hidden_ok_iff hn₀, hstarts, true_and]
    rw [iff_not_comm, not_or, not_and]
    simp only [not_exists, not_and, not_not, not_imp_not]
    exact ⟨fun h => ⟨h.hidden, h.committed⟩, fun h => ⟨h.1, h.2⟩⟩

end Check

theorem signCredential_robust_iff (env : Env) (proverId : String)
    (blindedCredentialSecrets : BlindedCredentialSecrets C)
    (proof : BlindedCredentialSecretsCorrectnessProof) (credentialNonce issuanceNonce : Nonce)
    (values : CredentialValues) (pubKey : CredentialPublicKey C) (privKey : CredentialPrivateKey C)
    (draws : SignDraws) :
    ¬Panics (signCredential env proverId blindedCredentialSecrets proof credentialNonce
      issuanceNonce values pubKey privKey draws) ↔
      (Starts blindedCredentialSecrets proof pubKey.pKey →
        Indexed blindedCredentialSecrets proof pubKey.pKey) := by
  rw [signCredential, panics_bind_iff, panics_check_iff, not_or, not_and_not_right, and_iff_left]
  rintro ⟨-, -, h⟩
  revert h
  refine not_panics_bind ?_ fun _ _ => ?_
  · exact not_panics_bind not_panics_signPrimaryCredential fun _ _ => not_panics_pure
  · exact not_panics_bind not_panics_newSignatureCorrectnessProof fun _ _ => not_panics_pure

-- The prover leaves out the response for a hidden attribute.
def unansweredSecrets (C : Curve) : BlindedCredentialSecrets C where
  u := 1
  ur := none
  hiddenAttributes := {"name"}
  committedAttributes := ∅

def unansweredProof : BlindedCredentialSecretsCorrectnessProof where
  c := 0
  vDashCap := 0
  mCaps := ∅
  rCaps := ∅

theorem not_signCredential_robust : ¬∀ (C : Curve) (env : Env) (proverId : String)
    (blindedCredentialSecrets : BlindedCredentialSecrets C)
    (proof : BlindedCredentialSecretsCorrectnessProof) (credentialNonce issuanceNonce : Nonce)
    (values : CredentialValues) (pubKey : CredentialPublicKey C) (privKey : CredentialPrivateKey C)
    (draws : SignDraws), ¬Panics (signCredential env proverId blindedCredentialSecrets proof
      credentialNonce issuanceNonce values pubKey privKey draws) := by
  intro h
  refine h ProofVerifier.curveMod11 Presentation.zeroEnv "prover" (unansweredSecrets _)
    unansweredProof 1 2 ageValues identityPubKey (issuerPrivKey _) signDraws77 ?_
  exact ⟨"no entry found for key", rfl⟩

end Issuer
end Ursa
