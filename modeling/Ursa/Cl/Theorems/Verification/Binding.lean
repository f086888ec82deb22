import Ursa.Cl.Theorems.NonRevocation
import Ursa.Cl.Theorems.Verification.Forgery

namespace Ursa

open BigNumber UrsaCryptoResult

variable {C : Curve} {env : Env}

section Forgery

variable {common : HashMap (Option BigNumber)} {cred : VerifiableCredential C} {cHash : ℤ}

theorem honestEBound_le_natAbs (hn : 1 < cred.pubKey.pKey.n.natAbs) (hc : 0 ≤ cHash) :
    2 ^ 457 ≤ ((forgedEqProof common cHash cred).e : ℤ).natAbs := by
  have hbound : honestEBound = ((2 ^ 457 : ℕ) : ℤ) := by
    rw [Nat.cast_pow, Nat.cast_ofNat, honestEBound]
  have hpos : 0 < honestEBound := pow_pos two_pos 457
  have hstart : (1 : ℤ) - largeEStartValue ≤ 0 :=
    sub_nonpos.mpr <| Int.ofNat_le.mpr Nat.one_le_two_pow
  have hproduct : cHash * (1 - largeEStartValue) ≤ 0 := mul_nonpos_of_nonneg_of_nonpos hc hstart
  have horder : honestEBound ≤ groupOrder cred.pubKey.pKey.n * honestEBound :=
    le_mul_of_one_le_left hpos.le <| groupOrder_pos hn
  have he : (forgedEqProof common cHash cred).e ≤ -honestEBound := by
    rw [forgedEqProof]
    linarith
  rw [hbound] at he
  generalize 2 ^ 457 = b at he
  have habs : (b : ℤ) ≤ |((forgedEqProof common cHash cred).e : ℤ)| := le_abs.mpr <| .inr <| by
    linarith
  rwa [← Int.natCast_natAbs, Int.ofNat_le] at habs

theorem forgedMj_ne (hn : 1 < cred.pubKey.pKey.n.natAbs) (predicate : Predicate) :
    (forgedEqProof common cHash cred).m.lookup predicate.attrName ≠
      some (forgedMj common cHash cred predicate) := by
  rw [forgedMj]
  split
  case isTrue h =>
    intro h'
    have heq := Option.some.inj <| h.symm.trans h'
    exact (groupOrder_pos hn).ne' <| left_eq_add.mp heq
  case isFalse h => exact h

end Forgery

namespace ProofVerifier

variable {self : ProofVerifier C} {nonce : Nonce}

-- Every sub proof of an accepted proof has a credential that it was checked against.
theorem exists_credential (h : self.Accepts env proof nonce) (hsub : sub ∈ proof.proofs) :
    ∃ cred ∈ self.credentials, checkSubProofParamsConsistency sub cred = .ok () := by
  obtain ⟨hlen, hcheck, -⟩ := accepts_iff.mp h
  rw [← List.map_fst_zip hlen.le, List.mem_map] at hsub
  obtain ⟨⟨sub, cred⟩, hmem, rfl⟩ := hsub
  exact ⟨cred, (List.of_mem_zip hmem).2, hcheck _ hmem⟩

section Built

-- Verifiers as they are built before the first proof comes in.
inductive Built : ProofVerifier C → Prop
  | new : Built (.new C)
  | addCommonAttribute : Built v → Built (v.addCommonAttribute attrName)
  | addSubProofRequest : Built v →
    v.addSubProofRequest subProofRequest credentialSchema nonCredentialSchema credentialPubKey
      revKeyPub revReg = .ok v' → Built v'

-- No value is kept yet.
theorem Built.lookup_ne (h : Built self) (a : String) (x : BigNumber) :
    self.commonAttributes.lookup a ≠ some (some x) := by
  induction h
  case new => exact (Finmap.lookup_empty a).symm ▸ nofun
  case addCommonAttribute v b _ hi =>
    obtain rfl | hne := eq_or_ne a b
    · rw [ProofVerifier.addCommonAttribute, Finmap.lookup_insert]
      exact nofun
    · rwa [ProofVerifier.addCommonAttribute, Finmap.lookup_insert_of_ne _ hne]
  case addSubProofRequest _ hok hi =>
    simp only [ProofVerifier.addSubProofRequest, bind_eq_ok_iff, pure_eq_ok_iff] at hok
    obtain ⟨_, -, rfl⟩ := hok
    exact hi

theorem Built.usable_iff {cred : VerifiableCredential C} (h : Built self) :
    cred.Usable self.commonAttributes ↔ cred.Usable ∅ := by
  constructor
  case mp =>
    intro hcred
    exact ⟨hcred.n, hcred.z, hcred.base, fun a _ x _ hx => by simp at hx⟩
  case mpr =>
    intro hcred
    exact ⟨hcred.n, hcred.z, hcred.base, fun a _ x _ hx => absurd hx <| h.lookup_ne a x⟩

end Built

section Mod77

-- A hash that keeps the first 32 bytes.
def prefixEnv : Env :=
  .sorted (fun bytes => (bytes ++ List.replicate 32 0).take 32) fun bytes => by simp

-- Asks for a proof that the age is at least 18, from a credential that can be revoked.
def ageCredential : VerifiableCredential curveMod11 where
  pubKey := { pKey := pPubKeyMod77, rKey := some rPubKeyMod11 }
  subProofRequest := ⟨∅, {⟨"age", .GE, 18⟩}⟩
  credentialSchema := ⟨{"age"}⟩
  nonCredentialSchema := ⟨∅⟩
  revKeyPub := some ⟨mod11 10⟩
  revReg := some ⟨mod11 5⟩

-- Asks for a common attribute that the credential does not have.
def ageVerifier : ProofVerifier curveMod11 where
  credentials := [ageCredential]
  commonAttributes := (∅ : HashMap (Option BigNumber)).insert "link" none

theorem ageVerifier_built : Built ageVerifier := by
  have hcheck : checkAddSubProofRequestParamsConsistency ageCredential.subProofRequest
      ageCredential.credentialSchema = .ok () := by
    decide +kernel
  have hok : ((new curveMod11).addCommonAttribute "link").addSubProofRequest
      ageCredential.subProofRequest ageCredential.credentialSchema ageCredential.nonCredentialSchema
      ageCredential.pubKey ageCredential.revKeyPub ageCredential.revReg = .ok ageVerifier := by
    rw [addSubProofRequest, hcheck]
    rfl
  exact .addSubProofRequest (.addCommonAttribute .new) hok

theorem ageCredential_usable : ageCredential.Usable ageVerifier.commonAttributes where
  n := by decide
  z := by decide
  base := by decide +kernel
  kept a _ x _ hx := absurd hx <| ageVerifier_built.lookup_ne a x

theorem ageVerifier_usable :
    ∀ cred ∈ ageVerifier.credentials, cred.Usable ageVerifier.commonAttributes :=
  List.forall_mem_singleton.mpr ageCredential_usable

def ageForgery : Proof curveMod11 :=
  (forgery prefixEnv ageVerifier.commonAttributes).proof prefixEnv ageVerifier 5

theorem ageForgery_accepts : ageVerifier.Accepts prefixEnv ageForgery 5 :=
  Strategy.accepts (fun cred hcred => forgery_works <| ageVerifier_usable cred hcred) 5

end Mod77

section Responses

-- The response for the exponent of the signature is bounded like an honest one only where nothing
-- is accepted at all.
theorem accepted_e_bounded_iff (env : Env) (self : ProofVerifier C) :
    (∀ nonce proof, self.Accepts env proof nonce →
      ∀ sub ∈ proof.proofs, (sub.primaryProof.eqProof.e : ℤ).natAbs < 2 ^ 457) ↔
      self.credentials = [] ∨ ∃ cred ∈ self.credentials, ¬cred.Usable self.commonAttributes := by
  constructor
  case mp =>
    intro h
    by_contra hcon
    push Not at hcon
    obtain ⟨hne, husable⟩ := hcon
    obtain ⟨cred, hcred⟩ := List.exists_mem_of_ne_nil _ hne
    obtain ⟨cHash, proof, hc, haccepts, hproofs⟩ := exists_forgery husable env 0
    have hlt := h 0 proof haccepts _ <| hproofs ▸ List.mem_map_of_mem hcred
    exact not_lt.mpr (honestEBound_le_natAbs (husable cred hcred).n hc) hlt
  case mpr =>
    rintro (hnil | ⟨cred, hcred, hnot⟩) nonce proof haccepts sub hsub
    · obtain ⟨cred, hcred, -⟩ := exists_credential haccepts hsub
      rw [hnil] at hcred
      cases hcred
    · exact absurd (usable_of_accepts haccepts hcred) hnot

theorem not_accepted_e_bounded :
    ageVerifier.Accepts prefixEnv ageForgery 5 ∧
      ∃ sub ∈ ageForgery.proofs, 2 ^ 457 ≤ (sub.primaryProof.eqProof.e : ℤ).natAbs :=
  ⟨ageForgery_accepts, _, .head _,
    honestEBound_le_natAbs ageCredential_usable.n (getHashAsInt_nonneg prefixEnv _)⟩

-- The response of a predicate proof belongs to the attribute only where nothing is accepted at all.
theorem accepted_mj_eq_iff (env : Env) (self : ProofVerifier C) :
    (∀ nonce proof, self.Accepts env proof nonce → ∀ sub ∈ proof.proofs,
      ∀ ne ∈ sub.primaryProof.neProofs, sub.m.lookup ne.predicate.attrName = some ne.mj) ↔
      (∀ cred ∈ self.credentials, cred.subProofRequest.predicates = ∅) ∨
        ∃ cred ∈ self.credentials, ¬cred.Usable self.commonAttributes := by
  constructor
  case mp =>
    intro h
    by_contra hcon
    push Not at hcon
    obtain ⟨⟨cred, hcred, predicate, hpredicate⟩, husable⟩ := hcon
    obtain ⟨cHash, proof, -, haccepts, hproofs⟩ := exists_forgery husable env 0
    exact forgedMj_ne (husable cred hcred).n predicate <| h 0 proof haccepts _
      (hproofs ▸ List.mem_map_of_mem hcred) _
      (List.mem_map_of_mem <| BTreeSet.mem_iter.mpr hpredicate)
  case mpr =>
    rintro (hnone | ⟨cred, hcred, hnot⟩) nonce proof haccepts sub hsub ne hne
    · obtain ⟨cred, hcred, hcheck⟩ := exists_credential haccepts hsub
      have hpredicates := (checkSubProofParamsConsistency_ok_iff.mp hcheck).2
      rw [hnone cred hcred, List.toFinset_eq_empty_iff, List.map_eq_nil_iff] at hpredicates
      rw [hpredicates] at hne
      cases hne
    · exact absurd (usable_of_accepts haccepts hcred) hnot

theorem not_accepted_mj_eq :
    ageVerifier.Accepts prefixEnv ageForgery 5 ∧
      ∃ sub ∈ ageForgery.proofs, ∃ ne ∈ sub.primaryProof.neProofs,
        sub.m.lookup ne.predicate.attrName ≠ some ne.mj :=
  ⟨ageForgery_accepts, _, .head _, _, .head _, forgedMj_ne ageCredential_usable.n _⟩

end Responses

section NonRevocation

variable {rPubKey : CredentialRevocationPublicKey C} {revReg : RevocationRegistry C}
variable {revKeyPub : RevocationKeyPublic C}

-- The sub proof with the index `k` has a non-revocation part, and what was computed from it is in
-- the list that was hashed.
def HashesNonRevocation (self : ProofVerifier C) (env : Env) (proof : Proof C) (k : ℕ)
    (rPubKey : CredentialRevocationPublicKey C) (revReg : RevocationRegistry C)
    (revKeyPub : RevocationKeyPublic C) : Prop :=
  ∃ sub nonRevocProof tau taus common', proof.proofs[k]? = some sub ∧
    sub.nonRevocProof = some nonRevocProof ∧
    verifyNonRevocationProof rPubKey revReg revKeyPub proof.aggregatedProof.cHash nonRevocProof =
      .ok tau ∧
    verifySubProofs env proof.aggregatedProof.cHash (proof.proofs.zip self.credentials)
      self.commonAttributes = (.ok taus, common') ∧
    tau.asSlice <:+: taus

-- A non-revocation part that is there is checked.
theorem hashesNonRevocation_of_part (h : self.Accepts env proof nonce)
    (hk : self.credentials[k]? = some cred) (hrKey : cred.pubKey.rKey = some rPubKey)
    (hrevReg : cred.revReg = some revReg) (hrevKeyPub : cred.revKeyPub = some revKeyPub)
    (hsub : proof.proofs[k]? = some sub) (hpart : sub.nonRevocProof = some nonRevocProof) :
    HashesNonRevocation self env proof k rPubKey revReg revKeyPub := by
  obtain ⟨-, -, taus, common', hverify, -⟩ := accepts_iff.mp h
  have hmem : (sub, cred) ∈ proof.proofs.zip self.credentials :=
    List.mem_of_getElem? <| List.getElem?_zip_eq_some.mpr ⟨hsub, hk⟩
  obtain ⟨nonRevocTau, tau', hnonRevoc, -, hinfix⟩ := verifySubProofs_eq_ok hverify _ hmem
  simp only [verifyNonRevocationPart, hpart, hrKey, hrevReg, hrevKeyPub, bind_eq_ok_iff,
    pure_eq_ok_iff] at hnonRevoc
  obtain ⟨tau, htau, rfl⟩ := hnonRevoc
  exact ⟨sub, nonRevocProof, tau, taus, common', hsub, hpart, htau, hverify,
    (List.prefix_append _ _).isInfix.trans hinfix⟩

-- A credential that can be revoked: the verifier has all that a non-revocation proof is checked
-- with. It still accepts sub proofs without one.
theorem accepted_nonRevocation_iff (env : Env) (hk : self.credentials[k]? = some cred)
    (hrKey : cred.pubKey.rKey = some rPubKey) (hrevReg : cred.revReg = some revReg)
    (hrevKeyPub : cred.revKeyPub = some revKeyPub) :
    (∀ nonce proof, self.Accepts env proof nonce → ∀ sub, proof.proofs[k]? = some sub →
      sub.nonRevocProof.isSome → HashesNonRevocation self env proof k rPubKey revReg revKeyPub) ∧
    ((∀ nonce proof, self.Accepts env proof nonce →
      HashesNonRevocation self env proof k rPubKey revReg revKeyPub) ↔
      ∃ cred ∈ self.credentials, ¬cred.Usable self.commonAttributes) := by
  refine ⟨fun nonce proof haccepts sub hsub hpart => ?_, ?_, ?_⟩
  · obtain ⟨nonRevocProof, hpart⟩ := Option.isSome_iff_exists.mp hpart
    exact hashesNonRevocation_of_part haccepts hk hrKey hrevReg hrevKeyPub hsub hpart
  · intro h
    by_contra hcon
    push Not at hcon
    obtain ⟨cHash, proof, -, haccepts, hproofs⟩ := exists_forgery hcon env 0
    obtain ⟨sub, nonRevocProof, -, -, -, hsub, hpart, -⟩ := h 0 proof haccepts
    rw [hproofs, List.getElem?_map, hk] at hsub
    obtain rfl := Option.some.inj hsub
    cases hpart
  · rintro ⟨cred, hcred, hnot⟩ nonce proof haccepts
    exact absurd (usable_of_accepts haccepts hcred) hnot

theorem accepted_nonRevocation_iff_age :
    ¬∀ nonce proof, ageVerifier.Accepts prefixEnv proof nonce →
      HashesNonRevocation ageVerifier prefixEnv proof 0 rPubKeyMod11 ⟨mod11 5⟩
        ⟨mod11 10⟩ := by
  intro h
  have hk : ageVerifier.credentials[0]? = some ageCredential := rfl
  obtain ⟨cred, hcred, hnot⟩ := (accepted_nonRevocation_iff prefixEnv hk rfl rfl rfl).2.mp h
  exact hnot <| ageVerifier_usable cred hcred

-- Nothing is proved about the revocation.
theorem not_accepted_nonRevocation :
    ageVerifier.Accepts prefixEnv ageForgery 5 ∧
      ¬HashesNonRevocation ageVerifier prefixEnv ageForgery 0 rPubKeyMod11 ⟨mod11 5⟩
        ⟨mod11 10⟩ := by
  refine ⟨ageForgery_accepts, ?_⟩
  rintro ⟨sub, nonRevocProof, -, -, -, hsub, hpart, -⟩
  obtain rfl := Option.some.inj hsub
  cases hpart

end NonRevocation

section CommonAttributes

-- All sub proofs have the same response for the attribute `a`, and it is among the exponents of
-- every signature.
structure Links (verifier : ProofVerifier C) (proof : Proof C) (a : String) : Prop where
  response : ∃ x, ∀ sub ∈ proof.proofs, sub.m.lookup a = some x
  unrevealed : ∀ cred ∈ verifier.credentials, a ∈ cred.unrevealed

theorem response_eq_of_accepts (h : self.Accepts env proof nonce) (ha : a ∈ self.commonAttributes) :
    ∃ x, ∀ sub ∈ proof.proofs, sub.m.lookup a = some x := by
  obtain ⟨hlen, -, taus, common', hverify, -⟩ := accepts_iff.mp h
  obtain ⟨x, hx⟩ := exists_lookup_m hverify ha
  refine ⟨x, fun sub hsub => ?_⟩
  rw [← List.map_fst_zip hlen.le, List.mem_map] at hsub
  obtain ⟨item, hitem, rfl⟩ := hsub
  exact hx item hitem

theorem accepted_links_iff (env : Env) (hbuilt : Built self) :
    (∀ nonce proof, self.Accepts env proof nonce →
      ∀ a ∈ self.commonAttributes, Links self proof a) ↔
      (∀ a ∈ self.commonAttributes, ∀ cred ∈ self.credentials, a ∈ cred.unrevealed) ∨
        ∃ cred ∈ self.credentials, ¬cred.Usable ∅ := by
  constructor
  case mp =>
    intro h
    by_contra hcon
    push Not at hcon
    obtain ⟨⟨a, ha, cred, hcred, hnot⟩, husable⟩ := hcon
    obtain ⟨cHash, proof, -, haccepts, -⟩ :=
      exists_forgery (fun cred hcred => hbuilt.usable_iff.mpr <| husable cred hcred) env 0
    exact hnot <| (h 0 proof haccepts a ha).unrevealed cred hcred
  case mpr =>
    rintro (hlinked | ⟨cred, hcred, hnot⟩) nonce proof haccepts a ha
    · exact ⟨response_eq_of_accepts haccepts ha, hlinked a ha⟩
    · exact absurd (hbuilt.usable_iff.mp <| usable_of_accepts haccepts hcred) hnot

theorem accepted_links_iff_age :
    ¬∀ nonce proof, ageVerifier.Accepts prefixEnv proof nonce →
      ∀ a ∈ ageVerifier.commonAttributes, Links ageVerifier proof a := by
  intro h
  have hlink : "link" ∈ ageVerifier.commonAttributes := Finmap.mem_insert.mpr <| .inl rfl
  obtain hlinked | ⟨cred, hcred, hnot⟩ := (accepted_links_iff prefixEnv ageVerifier_built).mp h
  · have hmem := hlinked "link" hlink ageCredential <| .head _
    revert hmem
    decide +kernel
  · exact hnot <| ageVerifier_built.usable_iff.mp <| ageVerifier_usable cred hcred

-- The common attribute is not one of the credential's at all.
theorem not_accepted_links :
    Built ageVerifier ∧ ageVerifier.Accepts prefixEnv ageForgery 5 ∧
      "link" ∈ ageVerifier.commonAttributes ∧ ¬Links ageVerifier ageForgery "link" := by
  refine ⟨ageVerifier_built, ageForgery_accepts, Finmap.mem_insert.mpr <| .inl rfl, fun h => ?_⟩
  have hmem := h.unrevealed ageCredential <| .head _
  revert hmem
  decide +kernel

end CommonAttributes

end ProofVerifier
end Ursa
