import Ursa.Cl.Theorems.Verification.Repetition

namespace Ursa

open BigNumber UrsaCryptoResult

namespace ProofVerifier

variable {C : Curve} {env : Env} {self : ProofVerifier C} {proof proof' : Proof C}
variable {nonce nonce' : Nonce}

-- What `verify` hashes. The numbers go into the hash without their lengths.
def hashedBytes (self : ProofVerifier C) (env : Env) (proof : Proof C) (nonce : Nonce) :
    UrsaCryptoResult (List UInt8) := do
  let tauList ← (verifySubProofs env proof.aggregatedProof.cHash
    (proof.proofs.zip self.credentials) self.commonAttributes).1
  pure (tauList ++ proof.aggregatedProof.cList ++ [nonce.toBytes]).flatten

structure Collision (env : Env) (bytes bytes' : List UInt8) : Prop where
  ne : bytes ≠ bytes'
  hash_eq : hash env bytes = hash env bytes'

-- Two proofs that differ at most in `c_list` are not accepted with one nonce each, unless what is
-- hashed for them is a collision.
def BindsNonce (self : ProofVerifier C) (env : Env) (nonce nonce' : Nonce) : Prop :=
  ∀ proof proof', proof'.proofs = proof.proofs →
    proof'.aggregatedProof.cHash = proof.aggregatedProof.cHash →
    self.Accepts env proof nonce → self.Accepts env proof' nonce' →
      ∃ bytes bytes', hashedBytes self env proof nonce = .ok bytes ∧
        hashedBytes self env proof' nonce' = .ok bytes' ∧ Collision env bytes bytes'

theorem exists_hashedBytes (h : self.Accepts env proof nonce) :
    ∃ bytes, hashedBytes self env proof nonce = .ok bytes ∧ nonce.toBytes <:+ bytes ∧
      fromBytes (hash env bytes) = proof.aggregatedProof.cHash := by
  obtain ⟨-, -, taus, common', hverify, hc⟩ := accepts_iff.mp h
  refine ⟨(taus ++ proof.aggregatedProof.cList ++ [nonce.toBytes]).flatten, ?_, ?_, hc⟩
  · rw [hashedBytes, hverify]
    rfl
  · exact ⟨(taus ++ proof.aggregatedProof.cList).flatten, by simp⟩

-- The bytes of the nonce are the last ones that are hashed, but nothing says where they begin.
theorem collision_of_not_suffix (hnot : ¬nonce.toBytes <:+ nonce'.toBytes)
    (hnot' : ¬nonce'.toBytes <:+ nonce.toBytes) : BindsNonce self env nonce nonce' := by
  intro proof proof' _ hcHash haccepts haccepts'
  obtain ⟨bytes, hbytes, hsuffix, hc⟩ := exists_hashedBytes haccepts
  obtain ⟨bytes', hbytes', hsuffix', hc'⟩ := exists_hashedBytes haccepts'
  refine ⟨bytes, bytes', hbytes, hbytes', fun heq => ?_, ?_⟩
  · obtain h | h := List.suffix_or_suffix_of_suffix hsuffix (heq ▸ hsuffix')
    · exact hnot h
    · exact hnot' h
  · exact fromBytes_hash_inj <| hc.trans <| hcHash.symm.trans hc'.symm

-- The bytes that a nonce is longer by are passed off as a commitment.
def moveBytes (proof : Proof C) (bytes : List UInt8) : Proof C :=
  { proof with
    aggregatedProof :=
      { proof.aggregatedProof with cList := proof.aggregatedProof.cList ++ [bytes] } }

theorem flatten_moveBytes (h : bytes ++ nonce'.toBytes = nonce.toBytes)
    (taus : List (List UInt8)) (proof : Proof C) :
    (taus ++ (moveBytes proof bytes).aggregatedProof.cList ++ [nonce'.toBytes]).flatten =
      (taus ++ proof.aggregatedProof.cList ++ [nonce.toBytes]).flatten := by
  simp [moveBytes, ← h]

theorem hashedBytes_moveBytes (h : bytes ++ nonce'.toBytes = nonce.toBytes) (proof : Proof C) :
    hashedBytes self env (moveBytes proof bytes) nonce' = hashedBytes self env proof nonce := by
  simp only [hashedBytes, flatten_moveBytes h]
  rfl

theorem accepts_moveBytes (h : bytes ++ nonce'.toBytes = nonce.toBytes)
    (haccepts : self.Accepts env proof nonce) :
    self.Accepts env (moveBytes proof bytes) nonce' := by
  obtain ⟨hlen, hcheck, taus, common', hverify, hc⟩ := accepts_iff.mp haccepts
  refine accepts_iff.mpr ⟨hlen, hcheck, taus, common', hverify, Eq.trans ?_ hc⟩
  rw [getHashAsInt, getHashAsInt, hashArray, hashArray, flatten_moveBytes h]

theorem not_bindsNonce_of_suffix (h : nonce'.toBytes <:+ nonce.toBytes)
    (haccepts : self.Accepts env proof nonce) :
    ¬BindsNonce self env nonce nonce' ∧ ¬BindsNonce self env nonce' nonce := by
  obtain ⟨bytes, h⟩ := h
  have hmoved := accepts_moveBytes h haccepts
  have hsame : hashedBytes self env (moveBytes proof bytes) nonce' =
      hashedBytes self env proof nonce := hashedBytes_moveBytes h proof
  refine ⟨fun hbinds => ?_, fun hbinds => ?_⟩
  case refine_1 =>
    obtain ⟨_, _, hbytes, hbytes', hcollision⟩ := hbinds proof (moveBytes proof bytes) rfl rfl
      haccepts hmoved
    exact hcollision.ne <| Except.ok.inj <| hbytes.symm.trans <| hsame.symm.trans hbytes'
  case refine_2 =>
    obtain ⟨_, _, hbytes, hbytes', hcollision⟩ := hbinds (moveBytes proof bytes) proof rfl rfl
      hmoved haccepts
    exact hcollision.ne <| Except.ok.inj <| hbytes.symm.trans <| hsame.trans hbytes'

theorem bindsNonce_iff (env : Env) (self : ProofVerifier C) (nonce nonce' : Nonce) :
    BindsNonce self env nonce nonce' ↔
      (¬nonce.toBytes <:+ nonce'.toBytes ∧ ¬nonce'.toBytes <:+ nonce.toBytes) ∨
        ∃ cred ∈ self.credentials, ¬cred.Usable self.commonAttributes := by
  constructor
  case mp =>
    intro h
    by_contra hcon
    push Not at hcon
    obtain ⟨hsuffix, husable⟩ := hcon
    have haccepts (nonce : Nonce) : ∃ proof, self.Accepts env proof nonce := by
      obtain ⟨_, proof, -, haccepts, -⟩ := exists_forgery husable env nonce
      exact ⟨proof, haccepts⟩
    by_cases hnonce : nonce.toBytes <:+ nonce'.toBytes
    case pos =>
      obtain ⟨proof, haccepts⟩ := haccepts nonce'
      exact (not_bindsNonce_of_suffix hnonce haccepts).2 h
    case neg =>
      obtain ⟨proof, haccepts⟩ := haccepts nonce
      exact (not_bindsNonce_of_suffix (hsuffix hnonce) haccepts).1 h
  case mpr =>
    rintro (⟨hnot, hnot'⟩ | ⟨cred, hcred, hnot⟩)
    · exact collision_of_not_suffix hnot hnot'
    · intro proof _ _ _ haccepts _
      exact absurd (usable_of_accepts haccepts hcred) hnot

-- What the verifier answers to a proof of the holder, and to the same proof with another nonce.
def verifyMoved (builder : ProofBuilder C) (self : ProofVerifier C) (env : Env)
    (nonce nonce' : Nonce) (bytes : List UInt8) : UrsaCryptoResult (Bool × Bool) := do
  let proof ← builder.finalize env nonce
  let accepted ← (self.verify env proof nonce).1
  let moved ← (self.verify env (moveBytes proof bytes) nonce').1
  pure (accepted, moved)

-- A proof for the nonce 258, which is `[1, 2]`, passes for the nonce 2.
theorem not_bindsNonce :
    verifyMoved linkedBuilder linkedVerifier suffixEnv 258 2 [1] = .ok (true, true) ∧
      ¬∀ nonce nonce', nonce ≠ nonce' → BindsNonce linkedVerifier suffixEnv nonce nonce' := by
  have hrun : verifyMoved linkedBuilder linkedVerifier suffixEnv 258 2 [1] = .ok (true, true) := by
    decide +kernel
  refine ⟨hrun, fun h => ?_⟩
  simp only [verifyMoved, bind_eq_ok_iff, pure_eq_ok_iff, Prod.mk.injEq] at hrun
  obtain ⟨proof, -, _, haccepts, _, -, rfl, -⟩ := hrun
  have hsuffix : (2 : BigNumber).toBytes <:+ (258 : BigNumber).toBytes := ⟨[1], by decide +kernel⟩
  exact (not_bindsNonce_of_suffix hsuffix haccepts).1 <| h 258 2 (by decide)

end ProofVerifier
end Ursa
