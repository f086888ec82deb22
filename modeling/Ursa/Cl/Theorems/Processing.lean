import Ursa.Cl.Theorems.Revocation.Presentation

namespace Ursa

open BigNumber UrsaCryptoResult

namespace Prover

variable {C : Curve} {env : Env} {isPrime : BigNumber → UrsaCryptoResult Bool}
variable {factors : CredentialSecretsBlindingFactors C} {cs cs' : CredentialSignature C}

-- All that may be different when the prover processes one signature again.
structure ProcessingInputs (C : Curve) where
  credentialValues : CredentialValues
  signatureCorrectnessProof : SignatureCorrectnessProof
  credentialPubKey : CredentialPublicKey C
  nonce : Nonce
  revKeyPub : Option (RevocationKeyPublic C)
  revReg : Option (RevocationRegistry C)
  witness : Option (Witness C)

def attempt (env : Env) (isPrime : BigNumber → UrsaCryptoResult Bool)
    (factors : CredentialSecretsBlindingFactors C) (cs : CredentialSignature C)
    (inputs : ProcessingInputs C) : UrsaCryptoResult Unit × CredentialSignature C :=
  processCredentialSignature env isPrime cs inputs.credentialValues
    inputs.signatureCorrectnessProof factors inputs.credentialPubKey inputs.nonce inputs.revKeyPub
    inputs.revReg inputs.witness

def FailedAttempt (env : Env) (isPrime : BigNumber → UrsaCryptoResult Bool)
    (factors : CredentialSecretsBlindingFactors C) (cs cs' : CredentialSignature C) : Prop :=
  ∃ inputs e, attempt env isPrime factors cs inputs = (.error e, cs')

-- However often the prover fails, it has the signature that it started from, and what would have
-- worked at first still works.
def AllOrNothing (env : Env) (isPrime : BigNumber → UrsaCryptoResult Bool)
    (factors : CredentialSecretsBlindingFactors C) (cs : CredentialSignature C) : Prop :=
  ∀ cs', Relation.ReflTransGen (FailedAttempt env isPrime factors) cs cs' →
    cs' = cs ∧ ∀ inputs, (attempt env isPrime factors cs' inputs).1 = .ok () ↔
      (attempt env isPrime factors cs inputs).1 = .ok ()

def signedEntries (values : CredentialValues) : List (String × CredentialValue) :=
  values.attrsValues.iter.filter (isSigned ·.2)

-- Everything that the check of a primary signature computes on its way.
theorem checkSignatureCorrectnessProof_eq_ok_iff :
    checkSignatureCorrectnessProof env isPrime pCred values proof pPubKey nonce = .ok () ↔
      isPrime pCred.e = .ok true ∧ (∀ entry ∈ signedEntries values, entry.1 ∈ pPubKey.r) ∧
        ∃ rx₀ rx q aCap,
          getPedersenCommitment pPubKey.s pCred.v pPubKey.rctxt pCred.m2 pPubKey.n = .ok rx₀ ∧
          (signedEntries values).foldlM (mulSignedAttr pPubKey) rx₀ = .ok rx ∧
          pPubKey.z.modDiv rx pPubKey.n = .ok q ∧ pCred.a.modExp pCred.e pPubKey.n = .ok q ∧
          pCred.a.modExp (proof.c + proof.se * pCred.e) pPubKey.n = .ok aCap ∧
          proof.c = getHashAsInt env [q.toBytes ++ pCred.a.toBytes ++ aCap.toBytes ++ nonce.toBytes] := by
  unfold checkSignatureCorrectnessProof
  rw [← signedEntries]
  by_cases hmem : ∀ entry ∈ signedEntries values, entry.1 ∈ pPubKey.r
  case pos =>
    have hfind : (signedEntries values).find? (fun entry => entry.1 ∉ pPubKey.r) = none := by
      simpa using hmem
    have hfilter : (signedEntries values).filter (fun entry => entry.1 ∈ pPubKey.r) =
        signedEntries values := by simpa using hmem
    simp only [hfind, hfilter, bind_eq_ok_iff, ite_error_bind_eq_ok_iff, ite_error_eq_ok_iff,
      pure_eq_ok_iff, not_not, Bool.not_eq_true', Bool.not_eq_false]
    constructor
    case mp =>
      rintro ⟨_, hprime, rfl, rx₀, hrx₀, rx, hrx, q, hq, _, he, rfl, aCap, haCap, hc, -⟩
      exact ⟨hprime, hmem, rx₀, rx, q, aCap, hrx₀, hrx, hq, he, haCap, hc⟩
    case mpr =>
      rintro ⟨hprime, -, rx₀, rx, q, aCap, hrx₀, hrx, hq, he, haCap, hc⟩
      exact ⟨true, hprime, rfl, rx₀, hrx₀, rx, hrx, q, hq, q, he, rfl, aCap, haCap, hc, trivial⟩
  case neg =>
    refine iff_of_false ?_ fun h => hmem h.2.1
    cases hfind : (signedEntries values).find? (fun entry => entry.1 ∉ pPubKey.r)
    case none => exact absurd (by simpa using hfind) hmem
    case some entry =>
      simp only [hfind, bind_eq_ok_iff, ite_error_bind_eq_ok_iff]
      rintro ⟨_, -, -, h⟩
      cases h

abbrev checkAttempt (env : Env) (isPrime : BigNumber → UrsaCryptoResult Bool)
    (factors : CredentialSecretsBlindingFactors C) (cs : CredentialSignature C)
    (inputs : ProcessingInputs C) : UrsaCryptoResult Unit :=
  checkSignatureCorrectnessProof env isPrime
    (processPrimaryCredential cs.pCredential factors.vPrime) inputs.credentialValues
    inputs.signatureCorrectnessProof inputs.credentialPubKey.pKey inputs.nonce

theorem attempt_of_error (h : checkAttempt env isPrime factors cs inputs = .error e) :
    attempt env isPrime factors cs inputs = (.error e,
      { cs with pCredential := processPrimaryCredential cs.pCredential factors.vPrime }) := by
  unfold checkAttempt at h
  unfold attempt processCredentialSignature
  dsimp only
  rw [h]

theorem attempt_primary (h : checkAttempt env isPrime factors cs inputs = .ok ())
    (hr : cs.rCredential = none) : attempt env isPrime factors cs inputs = (.ok (),
      { cs with pCredential := processPrimaryCredential cs.pCredential factors.vPrime }) := by
  unfold checkAttempt at h
  unfold attempt processCredentialSignature
  dsimp only
  rw [h, hr]

theorem attempt_of_ok (h : checkAttempt env isPrime factors cs inputs = .ok ())
    (hr : cs.rCredential = some rCred) (hv : factors.vrPrime = some vrPrime)
    (hkey : inputs.credentialPubKey.rKey = some rKey) (hpub : inputs.revKeyPub = some revKeyPub)
    (hreg : inputs.revReg = some revReg) (hwitness : inputs.witness = some witness) :
    attempt env isPrime factors cs inputs =
      let processed :=
        processNonRevocationCredential rCred vrPrime rKey revKeyPub revReg witness
      (processed.1,
        { pCredential := processPrimaryCredential cs.pCredential factors.vPrime
          rCredential := some processed.2 }) := by
  unfold checkAttempt at h
  unfold attempt processCredentialSignature
  dsimp only
  rw [h, hr, hv, hkey, hpub, hreg, hwitness]

-- Only a signature that has passed the checks of its primary part has the other one blinded.
def blindNonRevocation (factors : CredentialSecretsBlindingFactors C)
    (rCred : NonRevocationCredentialSignature C) : NonRevocationCredentialSignature C :=
  { rCred with vrPrimePrime := factors.vrPrime.getD 0 + rCred.vrPrimePrime }

-- What a call can do to the signature, whatever it returns.
theorem attempt_cases (h : attempt env isPrime factors cs inputs = (result, cs')) :
    cs' = { cs with pCredential := processPrimaryCredential cs.pCredential factors.vPrime } ∨
      isPrime cs.pCredential.e = .ok true ∧ ∃ rCred vrPrime, cs.rCredential = some rCred ∧
        factors.vrPrime = some vrPrime ∧ cs' =
          { pCredential := processPrimaryCredential cs.pCredential factors.vPrime
            rCredential := some (blindNonRevocation factors rCred) } := by
  unfold attempt processCredentialSignature at h
  dsimp only at h
  split at h
  case h_1 => exact .inl (Prod.mk.inj h).2.symm
  case h_2 hcheck =>
    split at h
    case h_2 => exact .inl (Prod.mk.inj h).2.symm
    case h_1 rCred vrPrime _ _ _ _ hr hv _ _ _ _ =>
      refine .inr ⟨?_, rCred, vrPrime, hr, hv, ?_⟩
      case refine_1 =>
        rw [checkSignatureCorrectnessProof, bind_eq_ok_iff] at hcheck
        obtain ⟨prime, hprime, hcheck⟩ := hcheck
        cases prime
        case false => cases hcheck
        case true => exact hprime
      case refine_2 =>
        rw [blindNonRevocation, hv]
        exact (Prod.mk.inj h).2.symm

-- The factors leave the signature as it is.
def Neutral (isPrime : BigNumber → UrsaCryptoResult Bool)
    (factors : CredentialSecretsBlindingFactors C) (cs : CredentialSignature C) : Prop :=
  factors.vPrime = 0 ∧ (isPrime cs.pCredential.e = .ok true →
    ∀ rCred vrPrime, cs.rCredential = some rCred → factors.vrPrime = some vrPrime → vrPrime = 0)

theorem processPrimaryCredential_zero (pCred : PrimaryCredentialSignature) :
    processPrimaryCredential pCred 0 = pCred := by
  rw [processPrimaryCredential, zero_add]

theorem Neutral.attempt_eq (hneutral : Neutral isPrime factors cs)
    (h : attempt env isPrime factors cs inputs = (result, cs')) : cs' = cs := by
  obtain ⟨hv, hvr⟩ := hneutral
  obtain rfl | ⟨hprime, rCred, vrPrime, hr, hvrPrime, rfl⟩ := attempt_cases h
  case inl => rw [hv, processPrimaryCredential_zero]
  case inr =>
    obtain rfl := hvr hprime rCred vrPrime hr hvrPrime
    rw [hv, processPrimaryCredential_zero, blindNonRevocation, hvrPrime, Option.getD_some, zero_add,
      ← hr]

theorem Neutral.allOrNothing (hneutral : Neutral isPrime factors cs) :
    AllOrNothing env isPrime factors cs := by
  intro cs' hrun
  suffices hcs : cs' = cs from ⟨hcs, fun _ => by rw [hcs]⟩
  induction hrun
  case refl => rfl
  case tail cs₁ cs₂ _ hstep hi =>
    obtain ⟨inputs, e, h⟩ := hstep
    subst hi
    exact hneutral.attempt_eq h

section Unmet

-- A key without bases, with which a call fails before it comes to any arithmetic.
def inputsUnknownAttr (C : Curve) : ProcessingInputs C where
  credentialValues := ⟨(∅ : BTreeMap CredentialValue).insert "a" (.known 0)⟩
  signatureCorrectnessProof := { se := 0, c := 0 }
  credentialPubKey := { pKey := { n := 0, s := 0, r := ∅, rctxt := 0, z := 0 }, rKey := none }
  nonce := 0
  revKeyPub := none
  revReg := none
  witness := none

theorem check_unknownAttr (pCred : PrimaryCredentialSignature) :
    ∃ e, checkSignatureCorrectnessProof env isPrime pCred (inputsUnknownAttr C).credentialValues
      (inputsUnknownAttr C).signatureCorrectnessProof (inputsUnknownAttr C).credentialPubKey.pKey
      (inputsUnknownAttr C).nonce = .error e := by
  unfold checkSignatureCorrectnessProof
  cases isPrime pCred.e with
  | error e => exact ⟨e, rfl⟩
  | ok prime =>
    cases prime with
    | false => exact ⟨_, rfl⟩
    | true => exact ⟨_, rfl⟩

theorem failedAttempt_primary (env : Env) (isPrime : BigNumber → UrsaCryptoResult Bool)
    (factors : CredentialSecretsBlindingFactors C) (cs : CredentialSignature C) :
    FailedAttempt env isPrime factors cs
      { cs with pCredential := processPrimaryCredential cs.pCredential factors.vPrime } := by
  obtain ⟨e, he⟩ : ∃ e, checkAttempt env isPrime factors cs (inputsUnknownAttr C) = .error e :=
    check_unknownAttr _
  exact ⟨inputsUnknownAttr C, e, attempt_of_error he⟩

theorem modExp_two (x : ℤ) (he : 0 < e) : modExp x e 2 = .ok (x % 2) := by
  rw [modExp_of_nonneg he.le, bnModExp_eq_ok_iff]
  refine ⟨two_ne_zero, ?_⟩
  have hpow : x ^ e.natAbs ≡ (x % 2) ^ e.natAbs [ZMOD 2] := (Int.mod_modEq x 2).symm.pow _
  have he₀ : e.natAbs ≠ 0 := Int.natAbs_ne_zero.mpr he.ne'
  rw [hpow]
  obtain h | h := Int.emod_two_eq_zero_or_one x
  · rw [h, zero_pow he₀]
    rfl
  · rw [h, one_pow]
    rfl

theorem inverse_one_two : inverse 1 2 = .ok 1 := by
  decide +kernel

theorem one_modExp_two (e : ℤ) : modExp 1 e 2 = .ok 1 := by
  have hone : ∀ k : ℕ, bnModExp 1 k 2 = .ok 1 := fun k =>
    bnModExp_eq_ok_iff.mpr ⟨two_ne_zero, by rw [one_pow]; rfl⟩
  cases lt_or_ge e 0
  case inl he =>
    rw [modExp_of_neg he, inverse_one_two, ok_bind, hone]
  case inr he => rw [modExp_of_nonneg he, hone]

-- Modulo 2 every signature verifies under a key of ones, whose `z` is the parity of its `a`.
def inputsModTwo (env : Env) (rPubKey : CredentialRevocationPublicKey C) (z : Pair C)
    (pCred : PrimaryCredentialSignature) : ProcessingInputs C where
  credentialValues := ⟨∅⟩
  signatureCorrectnessProof :=
    { se := 1
      c := getHashAsInt env [(pCred.a % 2).toBytes ++ pCred.a.toBytes ++ (pCred.a % 2).toBytes ++
        BigNumber.toBytes 0] }
  credentialPubKey :=
    { pKey := { n := 2, s := 1, r := ∅, rctxt := 1, z := pCred.a % 2 }
      rKey := some rPubKey }
  nonce := 0
  revKeyPub := some { z }
  revReg := some { accum := 0 }
  witness := some { omega := 0 }

theorem check_modTwo (he : isPrime pCred.e = .ok true) (hpos : 0 < pCred.e) (z : Pair C) :
    let inputs := inputsModTwo env rPubKey z pCred
    checkSignatureCorrectnessProof env isPrime pCred inputs.credentialValues
      inputs.signatureCorrectnessProof inputs.credentialPubKey.pKey inputs.nonce = .ok () := by
  intro inputs
  have hone : getPedersenCommitment 1 pCred.v 1 pCred.m2 2 = .ok 1 := by
    rw [getPedersenCommitment, one_modExp_two, one_modExp_two]
    rfl
  have hq : modDiv (pCred.a % 2) 1 2 = .ok (pCred.a % 2) := by
    rw [modDiv, inverse_one_two, ok_bind, modMul_eq_ok_iff]
    exact ⟨two_ne_zero, by rw [mul_one, Int.emod_emod]⟩
  have hdegree : 0 < inputs.signatureCorrectnessProof.c + 1 * pCred.e :=
    add_pos_of_nonneg_of_pos (getHashAsInt_nonneg ..) <| by rwa [one_mul]
  exact checkSignatureCorrectnessProof_eq_ok_iff.mpr ⟨he, fun _ h => absurd h List.not_mem_nil, 1, 1,
    _, _, hone, rfl, hq, modExp_two _ hpos, modExp_two _ hdegree, rfl⟩

-- A witness that does not fit the registry comes to light when both parts are blinded.
theorem failedAttempt_nonRevocation (env : Env) (hr : cs.rCredential = some rCred)
    (hv : factors.vrPrime = some vrPrime) (he : isPrime cs.pCredential.e = .ok true)
    (hpos : 0 < cs.pCredential.e) [Nontrivial (Pair C)] :
    FailedAttempt env isPrime factors cs
      { pCredential := processPrimaryCredential cs.pCredential factors.vPrime
        rCredential := some (blindNonRevocation factors rCred) } := by
  obtain ⟨z, hz⟩ := exists_ne (0 : Pair C)
  let rPubKey : CredentialRevocationPublicKey C :=
    { g := 0, gDash := 0, h := 0, h0 := 0, h1 := 0, h2 := 0, htilde := 0, hCap := 0, u := 0, pk := 0,
      y := 0 }
  let pCred := processPrimaryCredential cs.pCredential factors.vPrime
  let inputs := inputsModTwo env rPubKey z pCred
  have he : isPrime pCred.e = .ok true := he
  have hcheck : checkAttempt env isPrime factors cs inputs = .ok () := check_modTwo he hpos z
  have hzero : C.pair rCred.witnessSignature.gI 0 + -C.pair rPubKey.g 0 ≠ z := by
    rw [Curve.pair_zero_right, Curve.pair_zero_right, neg_zero, add_zero]
    exact hz.symm
  have hattempt := attempt_of_ok hcheck hr hv rfl rfl rfl rfl
  simp only [processNonRevocationCredential, testWitnessSignature] at hattempt
  rw [if_pos hzero] at hattempt
  rw [blindNonRevocation, hv, Option.getD_some]
  exact ⟨inputs, _, hattempt⟩

end Unmet

-- The prover may fail as often as it likes only if it has nothing to blind the signature with.
theorem allOrNothing_iff (hprime : ∀ x, isPrime x = .ok true → 0 < x) [Nontrivial (Pair C)] :
    AllOrNothing env isPrime factors cs ↔ Neutral isPrime factors cs := by
  constructor
  case mpr => exact Neutral.allOrNothing
  case mp =>
    intro h
    have hv := (h _ <| .single <| failedAttempt_primary env isPrime factors cs).1
    refine ⟨?_, fun he rCred vrPrime hr hvr => ?_⟩
    case refine_1 =>
      have hv := congrArg (·.pCredential.v) hv
      exact add_eq_right.mp hv
    case refine_2 =>
      have hattempt := failedAttempt_nonRevocation env hr hvr he (hprime _ he)
      have hr' := congrArg (·.rCredential) (h _ <| .single hattempt).1
      rw [hr, Option.some.injEq] at hr'
      have hr' := congrArg (·.vrPrimePrime) hr'
      simp only [blindNonRevocation, hvr, Option.getD_some] at hr'
      exact add_eq_right.mp hr'

section Residues

open ProofVerifier (curveMod11)

def primeTest (x : BigNumber) : UrsaCryptoResult Bool :=
  .ok <| decide x.toNat.Prime

-- Only the last byte counts, which for a proof is the one of its nonce.
def hashLastByte (bytes : List UInt8) : List UInt8 :=
  List.replicate 31 0 ++ [bytes.getLastD 0]

def ageSignature : CredentialSignature curveMod11 where
  pCredential := { m2 := 5, a := 4, e := 7, v := 1 }
  rCredential := none

def ageInputs (nonce : Nonce) : ProcessingInputs curveMod11 where
  credentialValues := Issuer.ageValues
  signatureCorrectnessProof := { se := 0, c := 1 }
  credentialPubKey :=
    { pKey := { n := 77, s := 4, r := (∅ : HashMap BigNumber).insert "age" 16, rctxt := 9, z := 58 }
      rKey := none }
  nonce := nonce
  revKeyPub := none
  revReg := none
  witness := none

def ageFactors : CredentialSecretsBlindingFactors curveMod11 where
  vPrime := 1
  vrPrime := none

theorem primeTest_pos (x : BigNumber) (h : primeTest x = .ok true) : 0 < x := by
  have hprime : x.toNat.Prime := of_decide_eq_true <| Except.ok.inj h
  exact Int.lt_toNat.mp hprime.pos

-- The signature is good, but after a call with a wrong nonce it is no longer.
theorem attempt_wrong_nonce :
    let env : Env := .sorted hashLastByte fun _ => rfl
    let blinded := { ageSignature with pCredential := { m2 := 5, a := 4, e := 7, v := 2 } }
    (attempt env primeTest ageFactors ageSignature (ageInputs 1)).1 = .ok () ∧
      attempt env primeTest ageFactors ageSignature (ageInputs 2) =
        (.error <| .err .invalidStructure "Invalid Signature correctness proof c != c'", blinded) ∧
      (attempt env primeTest ageFactors blinded (ageInputs 1)).1 =
        .error (.err .invalidStructure "Invalid Signature correctness proof q != q'") ∧
      ¬AllOrNothing env primeTest ageFactors ageSignature := by
  intro env blinded
  have hright : checkAttempt env primeTest ageFactors ageSignature (ageInputs 1) = .ok () := by
    decide +kernel
  have hwrong : checkAttempt env primeTest ageFactors ageSignature (ageInputs 2) =
      .error (.err .invalidStructure "Invalid Signature correctness proof c != c'") := by
    decide +kernel
  have hagain : checkAttempt env primeTest ageFactors blinded (ageInputs 1) =
      .error (.err .invalidStructure "Invalid Signature correctness proof q != q'") := by
    decide +kernel
  refine ⟨congrArg Prod.fst <| attempt_primary hright rfl, attempt_of_error hwrong, ?_, fun h => ?_⟩
  case refine_1 => rw [attempt_of_error hagain]
  case refine_2 =>
    have hv := congrArg (·.pCredential.v) (h blinded <| .single ⟨_, _, attempt_of_error hwrong⟩).1
    exact absurd hv (by decide)

theorem allOrNothing_iff_age :
    let env : Env := .sorted hashLastByte fun _ => rfl
    AllOrNothing env primeTest ageFactors ageSignature ↔
      Neutral primeTest ageFactors ageSignature := by
  intro env
  have hne : (0 : ZMod 11) ≠ 1 := by decide
  have hnontrivial : Nontrivial (Pair curveMod11) := ⟨_, _, hne⟩
  exact allOrNothing_iff primeTest_pos

end Residues

end Prover
end Ursa
