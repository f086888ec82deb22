import Ursa.Cl.Issuer
import Ursa.Cl.Theorems.Verification.Binding

namespace Ursa

open BigNumber UrsaCryptoResult ProofVerifier

variable {C : Curve} {env : Env}
variable {rPubKey : CredentialRevocationPublicKey C} {revReg : RevocationRegistry C}
variable {revKeyPub : RevocationKeyPublic C}

-- The keys are those of an issuer.
structure IssuerKeys (rPubKey : CredentialRevocationPublicKey C)
    (revKeyPub : RevocationKeyPublic C) : Prop where
  revocation : ∃ genG1 genG2 draws,
    (Issuer.newCredentialRevocationKeys genG1 genG2 draws).1 = rPubKey
  registry : ∃ maxCredNum gamma priv,
    Issuer.newRevocationRegistryKeys rPubKey maxCredNum gamma = .ok (revKeyPub, priv)

section NonRevocation

-- The values of a non-revocation proof that does not use its commitments.
def zeroTauList (C : Curve) : NonRevocProofTauList C where
  t1 := 0
  t2 := 0
  t3 := 0
  t4 := 0
  t5 := 0
  t6 := 0
  t7 := 0
  t8 := 0

-- A commitment for which every equation but the one of the credential holds by itself. The
-- generator stands where a signature is expected.
def forgedCList (rPubKey : CredentialRevocationPublicKey C) (revReg : RevocationRegistry C)
    (genG1 : PointG1 C) (sk k : GroupOrderElement C) : NonRevocProofCList C where
  e := 0
  d := 0
  a := genG1
  g := (1 - sk) • rPubKey.g
  w := (1 - sk) • revReg.accum - k • rPubKey.gDash
  s := rPubKey.gDash
  u := (1 - sk) • rPubKey.u

-- The response for any context `m2`: the one for `c` makes up for it.
def forgedXList (m2 c : GroupOrderElement C) : NonRevocProofXList C where
  rho := 0
  r := 0
  rPrime := 0
  rPrimePrime := 0
  rPrimePrimePrime := 0
  o := 0
  oPrime := 0
  m := 0
  mPrime := 0
  t := 0
  tPrime := 0
  m2 := m2
  s := 0
  c := c

variable {genG1 : PointG1 C} {genG2 : PointG2 C} {draws : Issuer.RevocationKeyDraws C}

theorem verifyNonRevocationProof_forged {k : GroupOrderElement C} (revReg : RevocationRegistry C)
    (hkey : (Issuer.newCredentialRevocationKeys genG1 genG2 draws).1 = rPubKey)
    (hz : revKeyPub.z = k • C.pair rPubKey.g rPubKey.gDash) (hc₀ : 0 ≤ cHash)
    (hc : cHash < 256 ^ 32) (m2 : GroupOrderElement C) :
    verifyNonRevocationProof rPubKey revReg revKeyPub cHash
      { xList := forgedXList m2 (m2 * draws.h1 -
          cHash * (draws.h0 + (1 - draws.sk) * draws.g - draws.x))
        cList := forgedCList rPubKey revReg genG1 draws.sk k } = .ok (zeroTauList C) := by
  subst hkey
  simp only [verifyNonRevocationProof, bignumToGroupElement_eq_ok hc₀ hc, ok_bind, pure_eq_ok_iff,
    createTauListExpectedValues, createTauListValues, zeroTauList, forgedXList, forgedCList, hz,
    Issuer.newCredentialRevocationKeys]
  ext
  all_goals
    simp only [Curve.pair_add_left, Curve.pair_sub_right, Curve.pair_smul_left,
      Curve.pair_smul_right, smul_zero]
    module

-- Whatever the registry is, there is a proof for every context and every challenge, with the same
-- commitments and the same values.
theorem exists_nonRevocProof (h : IssuerKeys rPubKey revKeyPub) (revReg : RevocationRegistry C) :
    ∃ (cList : NonRevocProofCList C)
      (xList : GroupOrderElement C → BigNumber → NonRevocProofXList C),
      ∀ m2 (cHash : ℤ), 0 ≤ cHash → cHash < 256 ^ 32 → (xList m2 cHash).m2 = m2 ∧
        verifyNonRevocationProof rPubKey revReg revKeyPub cHash ⟨xList m2 cHash, cList⟩ =
          .ok (zeroTauList C) := by
  obtain ⟨genG1, genG2, draws, hkey⟩ := h.revocation
  obtain ⟨maxCredNum, gamma, priv, hregistry⟩ := h.registry
  simp only [Issuer.newRevocationRegistryKeys, bind_eq_ok_iff, pure_eq_ok_iff, Prod.mk.injEq]
    at hregistry
  obtain ⟨_, -, pow, -, rfl, -⟩ := hregistry
  exact ⟨_, fun m2 cHash => forgedXList m2 (m2 * draws.h1 -
      (cHash : ℤ) * (draws.h0 + (1 - draws.sk) * draws.g - draws.x)),
    fun m2 cHash hc₀ hc => ⟨rfl, verifyNonRevocationProof_forged revReg hkey rfl hc₀ hc m2⟩⟩

end NonRevocation

section Strategy

variable {common : HashMap (Option BigNumber)} {cred : VerifiableCredential C}

-- What a non-revocation part is checked with, if all of it is there.
def VerifiableCredential.revocation (cred : VerifiableCredential C) :
    Option (CredentialRevocationPublicKey C × RevocationRegistry C × RevocationKeyPublic C) :=
  match cred.pubKey.rKey, cred.revReg, cred.revKeyPub with
  | some rPubKey, some revReg, some revKeyPub => some (rPubKey, revReg, revKeyPub)
  | _, _, _ => none

theorem verifyNonRevocationPart_eq (cHash : ℤ) (primaryProof : PrimaryProof)
    (nonRevocProof : NonRevocProof C) (cred : VerifiableCredential C) :
    verifyNonRevocationPart cHash ⟨primaryProof, some nonRevocProof⟩ cred =
      match cred.revocation with
      | some (rPubKey, revReg, revKeyPub) =>
        (·.asSlice) <$> verifyNonRevocationProof rPubKey revReg revKeyPub cHash nonRevocProof
      | none => .ok [] := by
  unfold verifyNonRevocationPart VerifiableCredential.revocation
  cases cred.pubKey.rKey <;> cases cred.revReg <;> cases cred.revKeyPub <;> rfl

theorem exists_answer (hkeys : ∀ rPubKey revReg revKeyPub,
      cred.revocation = some (rPubKey, revReg, revKeyPub) → IssuerKeys rPubKey revKeyPub) :
    ∃ (cList : NonRevocProofCList C)
      (xList : GroupOrderElement C → BigNumber → NonRevocProofXList C),
      ∀ rPubKey revReg revKeyPub, cred.revocation = some (rPubKey, revReg, revKeyPub) →
        ∀ m2 (cHash : ℤ), 0 ≤ cHash → cHash < 256 ^ 32 → (xList m2 cHash).m2 = m2 ∧
          verifyNonRevocationProof rPubKey revReg revKeyPub cHash ⟨xList m2 cHash, cList⟩ =
            .ok (zeroTauList C) := by
  cases hrev : cred.revocation
  case none => exact ⟨⟨0, 0, 0, 0, 0, 0, 0⟩, fun _ _ => forgedXList 0 0, nofun⟩
  case some parts =>
    obtain ⟨rPubKey, revReg, revKeyPub⟩ := parts
    obtain ⟨cList, xList, h⟩ := exists_nonRevocProof (hkeys _ _ _ hrev) revReg
    refine ⟨cList, xList, fun rPubKey' revReg' revKeyPub' heq => ?_⟩
    obtain ⟨rfl, rfl, rfl⟩ : rPubKey = rPubKey' ∧ revReg = revReg' ∧ revKeyPub = revKeyPub' := by
      simpa using heq
    exact h

-- Adds a non-revocation part to the forged primary part.
def contextForgery (env : Env) (common : HashMap (Option BigNumber))
    (cList : VerifiableCredential C → NonRevocProofCList C)
    (xList : VerifiableCredential C → BigNumber → NonRevocProofXList C) : Strategy C where
  respond cHash cred :=
    { primaryProof := forgedPrimaryProof common cHash cred
      nonRevocProof := some ⟨xList cred cHash, cList cred⟩ }
  tauList cred :=
    (if cred.revocation.isSome then (zeroTauList C).asSlice else []) ++
      (forgedTaus env common cred).map BigNumber.toBytes

theorem contextForgery_works {cList : VerifiableCredential C → NonRevocProofCList C}
    {xList : VerifiableCredential C → BigNumber → NonRevocProofXList C} (h : cred.Usable common)
    (hpart : ∀ rPubKey revReg revKeyPub, cred.revocation = some (rPubKey, revReg, revKeyPub) →
      ∀ cHash : ℤ, 0 ≤ cHash → cHash < 256 ^ 32 →
        verifyNonRevocationProof rPubKey revReg revKeyPub cHash ⟨xList cred cHash, cList cred⟩ =
          .ok (zeroTauList C)) :
    (contextForgery env common cList xList).Works env common cred where
  consistent _ := forged_consistent _
  response _ _ ha := lookup_forgedM <| Finset.mem_union_right _ <| Finmap.mem_keys.mpr ha
  verifies cHash hc₀ hc := by
    have hprimary : verifyPrimaryPart env cHash
        ((contextForgery env common cList xList).respond cHash cred, cred) =
        .ok (forgedTaus env common cred) := verifyPrimaryProof_forged h hc₀
    cases hrev : cred.revocation
    case none =>
      refine ⟨[], _, ?_, hprimary, ?_⟩
      · exact (verifyNonRevocationPart_eq _ _ _ _).trans (by rw [hrev])
      · simp [contextForgery, hrev]
    case some parts =>
      obtain ⟨rPubKey, revReg, revKeyPub⟩ := parts
      refine ⟨(zeroTauList C).asSlice, _, ?_, hprimary, ?_⟩
      · refine (verifyNonRevocationPart_eq _ _ _ _).trans ?_
        rw [hrev]
        simp only [hpart rPubKey revReg revKeyPub hrev cHash hc₀ hc]
        rfl
      · simp [contextForgery, hrev]

end Strategy

namespace ProofVerifier

variable {self : ProofVerifier C} {proof : Proof C}

-- What the two parts of a sub proof are committed to, together with all other values that are
-- hashed with them.
structure Commitments (C : Curve) where
  tauList : List (List UInt8)
  cList : List (List UInt8)
  aPrime : BigNumber
  nonRevocCList : NonRevocProofCList C
  deriving DecidableEq

-- The sub proof `k`, if its non-revocation part is checked: the commitments, and the responses for
-- the context in the two parts.
def contextResponses (self : ProofVerifier C) (env : Env) (proof : Proof C) (k : ℕ) :
    UrsaCryptoResult (Commitments C × BigNumber × GroupOrderElement C) := do
  let proofItem ← index proof.proofs k
  let credential ← index self.credentials k
  let _ ← okOrElse credential.revocation <| .panic "not checked"
  let nonRevocProof ← okOrElse proofItem.nonRevocProof <| .panic "not checked"
  let tauList ← (verifySubProofs env proof.aggregatedProof.cHash
    (proof.proofs.zip self.credentials) self.commonAttributes).1
  let eqProof := proofItem.primaryProof.eqProof
  pure ({ tauList, cList := proof.aggregatedProof.cList, aPrime := eqProof.aPrime,
          nonRevocCList := nonRevocProof.cList }, eqProof.m2, nonRevocProof.xList.m2)

-- The commitments fix one context `m` and one blinding `t`, and both parts answer with these.
def BindsContext (self : ProofVerifier C) (env : Env) : Prop :=
  ∃ context : ℕ → Commitments C → GroupOrderElement C × GroupOrderElement C,
    ∀ nonce proof, self.Accepts env proof nonce → ∀ k commitments m2 xm2,
      contextResponses self env proof k = .ok (commitments, m2, xm2) →
        let cHash : ℤ := proof.aggregatedProof.cHash
        let m := (context k commitments).1
        let t := (context k commitments).2
        ((m2 : ℤ) : GroupOrderElement C) = cHash * m + t ∧ xm2 = t - cHash * m

-- In two proofs with the same commitments both responses for the context move by the same amount,
-- in opposite directions.
theorem BindsContext.sub_eq {k : ℕ} {m2 m2' : ℤ} (h : BindsContext self env)
    (haccepts : self.Accepts env proof nonce) (haccepts' : self.Accepts env proof' nonce')
    (hresponses : contextResponses self env proof k = .ok (commitments, m2, xm2))
    (hresponses' : contextResponses self env proof' k = .ok (commitments, m2', xm2')) :
    ((m2 : GroupOrderElement C) - m2') = xm2' - xm2 := by
  obtain ⟨context, h⟩ := h
  obtain ⟨hm2, hxm2⟩ := h nonce proof haccepts k commitments m2 xm2 hresponses
  obtain ⟨hm2', hxm2'⟩ := h nonce' proof' haccepts' k commitments m2' xm2' hresponses'
  rw [hm2, hm2', hxm2, hxm2']
  ring

section Forgery

variable {cList : VerifiableCredential C → NonRevocProofCList C}
variable {xList : VerifiableCredential C → BigNumber → NonRevocProofXList C}

-- The forged sub proofs are checked, non-revocation part included.
theorem contextResponses_contextForgery
    (h : ∀ cred ∈ self.credentials,
      (contextForgery env self.commonAttributes cList xList).Works env self.commonAttributes cred)
    (hk : self.credentials[k]? = some cred) (hrev : cred.revocation.isSome) (nonce : Nonce) :
    let P := contextForgery env self.commonAttributes cList xList
    contextResponses self env (P.proof env self nonce) k =
      .ok (⟨self.credentials.flatMap P.tauList, [], cred.pubKey.pKey.z, cList cred⟩, 0,
        (xList cred (P.challenge env self nonce)).m2) := by
  intro P
  obtain ⟨parts, hparts⟩ := Option.isSome_iff_exists.mp hrev
  obtain ⟨common', htaus⟩ := Strategy.verifySubProofs_proof h nonce
  have hsub : (P.proof env self nonce).proofs[k]? =
      some (P.respond (P.challenge env self nonce) cred) := by
    rw [Strategy.proof, List.getElem?_map, hk]
    rfl
  have hcHash : (P.proof env self nonce).aggregatedProof.cHash = P.challenge env self nonce := rfl
  simp only [contextResponses, index, okOrElse, hsub, hk, hparts, hcHash, P, htaus, ok_bind]
  rfl

end Forgery

-- The two parts are about the same context only where there is no second part, or no proof.
theorem bindsContext_iff (env : Env)
    (hkeys : ∀ cred ∈ self.credentials, ∀ rPubKey revReg revKeyPub,
      cred.revocation = some (rPubKey, revReg, revKeyPub) → IssuerKeys rPubKey revKeyPub) :
    BindsContext self env ↔ (∀ cred ∈ self.credentials, cred.revocation = none) ∨
      ∃ cred ∈ self.credentials, ¬cred.Usable self.commonAttributes := by
  constructor
  case mp =>
    intro h
    by_contra hcon
    push Not at hcon
    obtain ⟨⟨cred, hcred, hrev⟩, husable⟩ := hcon
    have : Nonempty (NonRevocProofCList C) := ⟨⟨0, 0, 0, 0, 0, 0, 0⟩⟩
    have : Nonempty (NonRevocProofXList C) := ⟨forgedXList 0 0⟩
    choose! cList xList hanswer using fun cred hcred =>
      exists_answer (hkeys cred hcred)
    -- Two proofs that differ in the response of the non-revocation part only.
    have hworks (m2 : GroupOrderElement C) : ∀ cred ∈ self.credentials,
        (contextForgery env self.commonAttributes cList fun cred => xList cred m2).Works env
          self.commonAttributes cred :=
      fun cred hcred => contextForgery_works (husable cred hcred)
        fun rPubKey revReg revKeyPub hrev cHash hc₀ hc =>
          (hanswer cred hcred rPubKey revReg revKeyPub hrev m2 cHash hc₀ hc).2
    obtain ⟨k, hk⟩ := List.getElem?_of_mem hcred
    obtain ⟨⟨rPubKey, revReg, revKeyPub⟩, hparts⟩ := Option.ne_none_iff_exists'.mp hrev
    have hresponses (m2 : GroupOrderElement C) :=
      contextResponses_contextForgery (hworks m2) hk (by rw [hparts]; rfl) 0
    have hsub := h.sub_eq (Strategy.accepts (hworks 0) 0) (Strategy.accepts (hworks 1) 0)
      (hresponses 0) (hresponses 1)
    have hm2 (m2 : GroupOrderElement C) := fun cHash hc₀ hc =>
      (hanswer cred hcred rPubKey revReg revKeyPub hparts m2 cHash hc₀ hc).1
    rw [hm2 0 _ Strategy.challenge_nonneg Strategy.challenge_lt,
      hm2 1 _ Strategy.challenge_nonneg Strategy.challenge_lt, sub_self, sub_zero] at hsub
    exact zero_ne_one hsub
  case mpr =>
    rintro (hnone | ⟨cred, hcred, hnot⟩)
    · refine ⟨fun _ _ => (0, 0), fun nonce proof _ k commitments m2 xm2 hresponses => ?_⟩
      simp only [contextResponses, bind_eq_ok_iff, index_eq_ok_iff, okOrElse_eq_ok_iff]
        at hresponses
      obtain ⟨_, -, cred, hk, parts, hrev, -⟩ := hresponses
      rw [hnone cred <| List.mem_of_getElem? hk] at hrev
      cases hrev
    · exact ⟨fun _ _ => (0, 0), fun nonce proof haccepts =>
        absurd (usable_of_accepts haccepts hcred) hnot⟩

section Runs

variable {builder : ProofBuilder C} {nonce nonce' : Nonce} {k : ℕ}

-- A proof of the prover, the verifier's answer and the responses for the context.
def presentContext (builder : ProofBuilder C) (self : ProofVerifier C) (env : Env) (k : ℕ)
    (nonce : Nonce) :
    UrsaCryptoResult (Bool × Commitments C × GroupOrderElement C × GroupOrderElement C) := do
  let proof ← builder.finalize env nonce
  let accepted ← (self.verify env proof nonce).1
  let (commitments, m2, xm2) ← contextResponses self env proof k
  pure (accepted, commitments, ((m2 : ℤ) : GroupOrderElement C), xm2)

theorem BindsContext.presentContext_sub_eq {m2 m2' xm2 xm2' : GroupOrderElement C}
    (h : BindsContext self env)
    (hrun : presentContext builder self env k nonce = .ok (true, commitments, m2, xm2))
    (hrun' : presentContext builder self env k nonce' = .ok (true, commitments, m2', xm2')) :
    m2 - m2' = xm2' - xm2 := by
  simp only [presentContext, bind_eq_ok_iff, pure_eq_ok_iff, Prod.mk.injEq] at hrun hrun'
  obtain ⟨proof, -, _, haccepts, ⟨_, _, _⟩, hresponses, rfl, rfl, rfl, rfl⟩ := hrun
  obtain ⟨proof', -, _, haccepts', ⟨_, _, _⟩, hresponses', rfl, rfl, rfl, rfl⟩ := hrun'
  exact h.sub_eq haccepts haccepts' hresponses hresponses'

end Runs

section Mod77

theorem issuerKeys_mod11 : IssuerKeys rPubKeyMod11 ⟨mod11 10⟩ where
  revocation := ⟨mod11 1, mod11 1, ⟨mod11 2, mod11 3, mod11 4, mod11 5, mod11 6, mod11 1, mod11 7,
    mod11 1, mod11 4, mod11 3, mod11 8⟩, by rfl⟩
  registry := ⟨0, mod11 4, _, by rfl⟩

theorem bindsContext_iff_age : ¬BindsContext ageVerifier prefixEnv := by
  intro h
  have hkeys : ∀ cred ∈ ageVerifier.credentials, ∀ rPubKey revReg revKeyPub,
      cred.revocation = some (rPubKey, revReg, revKeyPub) → IssuerKeys rPubKey revKeyPub := by
    intro cred hcred rPubKey revReg revKeyPub hrev
    obtain rfl := List.mem_singleton.mp hcred
    cases hrev
    exact issuerKeys_mod11
  obtain hnone | ⟨cred, hcred, hnot⟩ := (bindsContext_iff prefixEnv hkeys).mp h
  · cases hnone ageCredential <| .head _
  · exact hnot <| ageVerifier_usable cred hcred

-- A hash that keeps the last 32 bytes, and with them the nonce.
def suffixEnv : Env :=
  .sorted (fun bytes => ((List.replicate 32 0 ++ bytes).reverse.take 32).reverse)
    fun bytes => by simp

-- A signature of its own, with the context 7.
def otherSignature : NonRevocationCredentialSignature curveMod11 where
  sigma := mod11 3
  c := mod11 2
  vrPrimePrime := mod11 1
  witnessSignature := ⟨mod11 9, mod11 6, mod11 4⟩
  gI := mod11 4
  i := 1
  m2 := mod11 7

example : Prover.testWitnessSignature otherSignature rPubKeyMod11 ⟨mod11 10⟩
    ⟨mod11 5⟩ ⟨mod11 10⟩ 7 = .ok () := by
  decide +kernel

-- The primary part has the context 5.
def mixedSignature : CredentialSignature curveMod11 where
  pCredential := { m2 := 5, a := 36, e := largeEStartValue + 1, v := 3 }
  rCredential := some otherSignature

def mixedDraws : SubProofDraws curveMod11 where
  eqProof := { m2Tilde := .zero, r := .zero, eTilde := .zero, vTilde := .zero, mTilde _ := .zero }
  neProof _ :=
    { r _ := .zero
      rDelta := .zero
      uTilde _ := .zero
      rTilde _ := .zero
      rTildeDelta := .zero
      alphaTilde := .zero }
  cListParams :=
    { rho := mod11 1
      r := mod11 2
      rPrime := mod11 3
      rPrimePrime := mod11 4
      rPrimePrimePrime := mod11 5
      o := mod11 6
      oPrime := mod11 7 }
  tauListParams := .fromList <| [1, 2, 3, 4, 5, 6, 7, 8, 9, 10, 0, 1, 2, 3].map mod11

-- The prover's own algorithm, with the parts of two credentials.
def mixedBuilder : ProofBuilder curveMod11 :=
  ((ProofBuilder.new curveMod11).addSubProofRequest suffixEnv ageCredential.subProofRequest
    ageCredential.credentialSchema ageCredential.nonCredentialSchema mixedSignature
    ⟨(∅ : BTreeMap CredentialValue).insert "age" (.known 20)⟩ ageCredential.pubKey
    ageCredential.revReg (some ⟨mod11 10⟩) mixedDraws).2

def mixedVerifier : ProofVerifier curveMod11 where
  credentials := [ageCredential]
  commonAttributes := ∅

def mixedCommitments : Commitments curveMod11 where
  tauList :=
    [[3], [7], [8], [10], [2], [1], [2], [8], [71], [1], [1], [1], [1], [1], [1]]
  cList := [[5], [0], [9], [5], [2], [2], [0], [36], [37], [37], [1], [1], [60]]
  aPrime := 36
  nonRevocCList := ⟨mod11 5, mod11 0, mod11 9, mod11 5, mod11 2, mod11 2, mod11 0⟩

-- The verifier accepts, and the responses do not move by the same amount.
theorem presentContext_mixed :
    presentContext mixedBuilder mixedVerifier suffixEnv 0 1 =
      .ok (true, mixedCommitments, mod11 8, mod11 6) ∧
    presentContext mixedBuilder mixedVerifier suffixEnv 0 2 =
      .ok (true, mixedCommitments, mod11 2, mod11 10) := by
  decide +kernel

theorem not_bindsContext : ¬BindsContext mixedVerifier suffixEnv := by
  intro h
  have hsub : mod11 8 - mod11 2 = mod11 10 - mod11 6 :=
    h.presentContext_sub_eq presentContext_mixed.1 presentContext_mixed.2
  exact absurd hsub <| by decide

end Mod77

end ProofVerifier
end Ursa
