import Ursa.Cl.Theorems.Verification.Acceptance

namespace Ursa

open BigNumber UrsaCryptoResult ProofVerifier

variable {C : Curve} {env : Env}

-- The value that the verifier has kept for an attribute, or 0 if it has none.
def keptValue (common : HashMap (Option BigNumber)) (a : String) : BigNumber :=
  ((common.lookup a).join).getD 0

-- A prover that does not know the challenge when it fixes what is hashed.
structure Strategy (C : Curve) where
  respond : BigNumber → VerifiableCredential C → SubProof C
  tauList : VerifiableCredential C → List (List UInt8)

-- The strategy passes the verifier's checks of one credential, whatever the challenge is.
structure Strategy.Works (P : Strategy C) (env : Env) (common : HashMap (Option BigNumber))
    (cred : VerifiableCredential C) : Prop where
  consistent : ∀ c, checkSubProofParamsConsistency (P.respond c cred) cred = .ok ()
  response : ∀ c, ∀ a ∈ common, (P.respond c cred).m.lookup a = some (keptValue common a)
  verifies : ∀ c, (0 : ℤ) ≤ c → (c : ℤ) < 256 ^ 32 → ∃ nonRevocTau tau,
    verifyNonRevocationPart c (P.respond c cred) cred = .ok nonRevocTau ∧
    verifyPrimaryPart env c (P.respond c cred, cred) = .ok tau ∧
    nonRevocTau ++ tau.map BigNumber.toBytes = P.tauList cred

namespace ProofVerifier

variable {common : HashMap (Option BigNumber)} {μ : String → BigNumber} {cHash : ℤ}

-- The values that are kept are those of `μ`.
def Agrees (μ : String → BigNumber) (common : HashMap (Option BigNumber)) : Prop :=
  ∀ a x, common.lookup a = some (some x) → x = μ a

theorem agrees_keptValue (common : HashMap (Option BigNumber)) :
    Agrees (keptValue common) common := by
  intro a x hx
  simp [keptValue, hx]

theorem checkCommonAttribute_ok (hm : m.lookup a = some (μ a)) (h : Agrees μ common) :
    ∃ common', checkCommonAttribute m common a = .ok common' ∧ Agrees μ common' := by
  unfold checkCommonAttribute
  rw [hm]
  cases hx : common.lookup a
  case none => exact ⟨common, rfl, h⟩
  case some value =>
    cases value
    case none =>
      refine ⟨_, rfl, fun b x hb => ?_⟩
      obtain rfl | hne := eq_or_ne b a
      · rw [Finmap.lookup_insert] at hb
        exact (Option.some.inj <| Option.some.inj hb).symm
      · exact h b x <| Finmap.lookup_insert_of_ne common hne ▸ hb
    case some x =>
      obtain rfl := h a x hx
      exact ⟨common, by simp, h⟩

theorem checkCommonAttributes_ok {l : List String} (hm : ∀ a ∈ l, m.lookup a = some (μ a))
    (h : Agrees μ common) :
    ∃ common', checkCommonAttributes m l common = (.ok (), common') ∧ Agrees μ common' := by
  induction l generalizing common
  case nil => exact ⟨common, rfl, h⟩
  case cons a l hi =>
    obtain ⟨common₁, hok, h₁⟩ := checkCommonAttribute_ok (hm a <| .head _) h
    obtain ⟨common', hok', h'⟩ := hi (fun b hb => hm b <| .tail _ hb) h₁
    exact ⟨common', by simp only [checkCommonAttributes, hok, hok'], h'⟩

theorem verifySubProof_ok {proofItem : SubProof C} {credential : VerifiableCredential C}
    (hm : ∀ a ∈ common, proofItem.m.lookup a = some (μ a)) (h : Agrees μ common)
    (hnonRevoc : verifyNonRevocationPart cHash proofItem credential = .ok nonRevocTau)
    (hprimary : verifyPrimaryPart env cHash (proofItem, credential) = .ok tau) :
    ∃ common', verifySubProof env cHash proofItem credential common =
      (.ok (nonRevocTau ++ tau.map BigNumber.toBytes), common') ∧ Agrees μ common' := by
  have hm' : ∀ a ∈ env.hashOrder common.keys, proofItem.m.lookup a = some (μ a) :=
    fun a ha => hm a <| Finmap.mem_keys.mp <| (env.mem_hashOrder _ _).mp ha
  obtain ⟨common', hok, h'⟩ := checkCommonAttributes_ok hm' h
  unfold verifyPrimaryPart at hprimary
  exact ⟨common', by simp only [verifySubProof, hnonRevoc, hok, hprimary], h'⟩

-- What the verifier computes for one sub proof and its credential.
def Computed (env : Env) (cHash : BigNumber) (item : SubProof C × VerifiableCredential C)
    (tauList : List (List UInt8)) : Prop :=
  ∃ nonRevocTau tau, verifyNonRevocationPart cHash item.1 item.2 = .ok nonRevocTau ∧
    verifyPrimaryPart env cHash item = .ok tau ∧
    nonRevocTau ++ tau.map BigNumber.toBytes = tauList

theorem verifySubProofs_ok {items : List (SubProof C × VerifiableCredential C)}
    {tauLists : List (List (List UInt8))}
    (hm : ∀ item ∈ items, ∀ a ∈ common, item.1.m.lookup a = some (μ a)) (h : Agrees μ common)
    (hitems : List.Forall₂ (Computed env cHash) items tauLists) :
    ∃ common', verifySubProofs env cHash items common = (.ok tauLists.flatten, common') := by
  induction hitems generalizing common
  case nil => exact ⟨common, rfl⟩
  case cons item tauList items tauLists hitem _ hi =>
    obtain ⟨nonRevocTau, tau, hnonRevoc, hprimary, rfl⟩ := hitem
    obtain ⟨common₁, hok, h₁⟩ := verifySubProof_ok (hm item <| .head _) h hnonRevoc hprimary
    have hkeys := (verifySubProof_eq_ok hok).1.mem_iff
    obtain ⟨common', hok'⟩ := hi
      (fun item' hitem' a ha => hm item' (.tail _ hitem') a <| (hkeys a).mp ha) h₁
    exact ⟨common', by simp only [verifySubProofs, hok, hok', List.flatten_cons]⟩

end ProofVerifier

namespace Strategy

variable {P : Strategy C} {self : ProofVerifier C} {nonce : Nonce}

def challenge (P : Strategy C) (env : Env) (self : ProofVerifier C) (nonce : Nonce) : BigNumber :=
  getHashAsInt env (self.credentials.flatMap P.tauList ++ [] ++ [nonce.toBytes])

theorem challenge_nonneg : (0 : ℤ) ≤ P.challenge env self nonce :=
  getHashAsInt_nonneg env _

theorem challenge_lt : (P.challenge env self nonce : ℤ) < 256 ^ 32 :=
  getHashAsInt_lt env _

def proof (P : Strategy C) (env : Env) (self : ProofVerifier C) (nonce : Nonce) : Proof C where
  proofs := self.credentials.map (P.respond <| P.challenge env self nonce)
  aggregatedProof := { cHash := P.challenge env self nonce, cList := [] }

theorem zip_respond (f : VerifiableCredential C → SubProof C)
    (creds : List (VerifiableCredential C)) :
    (creds.map f).zip creds = creds.map fun cred => (f cred, cred) := by
  induction creds
  case nil => rfl
  case cons cred creds hi => rw [List.map_cons, List.zip_cons_cons, hi, List.map_cons]

theorem mem_zip_respond {item : SubProof C × VerifiableCredential C}
    (h : item ∈ (P.proof env self nonce).proofs.zip self.credentials) :
    ∃ cred ∈ self.credentials, item = (P.respond (P.challenge env self nonce) cred, cred) := by
  rw [proof, zip_respond, List.mem_map] at h
  obtain ⟨cred, hcred, hitem⟩ := h
  exact ⟨cred, hcred, hitem.symm⟩

theorem verifySubProofs_proof (h : ∀ cred ∈ self.credentials, P.Works env self.commonAttributes cred)
    (nonce : Nonce) : ∃ common', verifySubProofs env (P.challenge env self nonce)
      ((P.proof env self nonce).proofs.zip self.credentials) self.commonAttributes =
      (.ok (self.credentials.flatMap P.tauList), common') := by
  have hitems : List.Forall₂ (Computed env (P.challenge env self nonce))
      ((P.proof env self nonce).proofs.zip self.credentials) (self.credentials.map P.tauList) := by
    rw [proof, zip_respond, List.forall₂_map_left_iff, List.forall₂_map_right_iff]
    exact List.forall₂_same.mpr fun cred hcred =>
      (h cred hcred).verifies _ challenge_nonneg challenge_lt
  have hm : ∀ item ∈ (P.proof env self nonce).proofs.zip self.credentials,
      ∀ a ∈ self.commonAttributes, item.1.m.lookup a = some (keptValue self.commonAttributes a) := by
    intro item hitem a ha
    obtain ⟨cred, hcred, rfl⟩ := mem_zip_respond hitem
    exact (h cred hcred).response _ a ha
  exact verifySubProofs_ok hm (agrees_keptValue _) hitems

theorem accepts (h : ∀ cred ∈ self.credentials, P.Works env self.commonAttributes cred)
    (nonce : Nonce) : self.Accepts env (P.proof env self nonce) nonce := by
  obtain ⟨common', hok⟩ := verifySubProofs_proof h nonce
  rw [accepts_iff]
  refine ⟨List.length_map _, fun item hitem => ?_, _, common', hok, rfl⟩
  obtain ⟨cred, hcred, rfl⟩ := mem_zip_respond hitem
  exact (h cred hcred).consistent _

end Strategy
end Ursa
