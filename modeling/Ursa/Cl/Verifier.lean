import Ursa.Cl.Helpers

namespace Ursa

-- `cl/verifier.rs`
structure ProofVerifier (C : Curve) where
  credentials : List (VerifiableCredential C)
  commonAttributes : HashMap (Option BigNumber)

namespace ProofVerifier

variable {C : Curve} (env : Env)

-- `Verifier::new_proof_verifier`
def new (C : Curve) : ProofVerifier C where
  credentials := []
  commonAttributes := ∅

def addCommonAttribute (self : ProofVerifier C) (attrName : String) : ProofVerifier C :=
  { self with commonAttributes := self.commonAttributes.insert attrName none }

def checkAddSubProofRequestParamsConsistency (subProofRequest : SubProofRequest)
    (credSchema : CredentialSchema) : UrsaCryptoResult Unit :=
  if subProofRequest.revealedAttrs \ credSchema.attrs ≠ ∅ then
    .error <| .err .invalidStructure "Credential doesn't contain requested attribute"
  else if subProofRequest.predicates.image Predicate.attrName \ credSchema.attrs ≠ ∅ then
    .error <| .err .invalidStructure "Credential doesn't contain attribute requested in predicate"
  else .ok ()

def addSubProofRequest (self : ProofVerifier C) (subProofRequest : SubProofRequest)
    (credentialSchema : CredentialSchema) (nonCredentialSchema : NonCredentialSchema)
    (credentialPubKey : CredentialPublicKey C) (revKeyPub : Option (RevocationKeyPublic C))
    (revReg : Option (RevocationRegistry C)) : UrsaCryptoResult (ProofVerifier C) := do
  checkAddSubProofRequestParamsConsistency subProofRequest credentialSchema
  let credential : VerifiableCredential C :=
    { pubKey := credentialPubKey, subProofRequest, credentialSchema, nonCredentialSchema,
      revKeyPub, revReg }
  pure { self with credentials := self.credentials ++ [credential] }

def checkSubProofParamsConsistency (proofForCredential : SubProof C)
    (credential : VerifiableCredential C) : UrsaCryptoResult Unit :=
  let primaryProof := proofForCredential.primaryProof
  if primaryProof.eqProof.revealedAttrs.keys ≠ credential.subProofRequest.revealedAttrs then
    .error <| .err .proofRejected
      "Proof revealed attributes not correspond to requested attributes"
  else if (primaryProof.neProofs.map (·.predicate)).toFinset ≠
      credential.subProofRequest.predicates then
    .error <| .err .proofRejected "Proof predicates not correspond to requested predicates"
  else .ok ()

def checkVerifyParamsConsistency (credentials : List (VerifiableCredential C)) (proof : Proof C) :
    UrsaCryptoResult Unit :=
  if proof.proofs.length ≠ credentials.length then
    .error <| .err .proofRejected "Invalid proof length"
  else (proof.proofs.zip credentials).forM fun p => checkSubProofParamsConsistency p.1 p.2

-- The attributes whose responses enter the equation of the signature.
def unrevealedAttrs (credSchema : CredentialSchema) (nonCredSchema : NonCredentialSchema)
    (subProofRequest : SubProofRequest) : HashSet String :=
  (credSchema.attrs ∪ nonCredSchema.attrs) \ subProofRequest.revealedAttrs

-- One round of the loop over the revealed attributes.
def verifyRevealedAttr (pPubKey : CredentialPrimaryPublicKey) (rar : BigNumber)
    (entry : String × BigNumber) : UrsaCryptoResult BigNumber := do
  let (attr, encodedValue) := entry
  let curR ← okOrElse (pPubKey.r.lookup attr) <|
    .err .proofRejected s!"Value by key '{attr}' not found in pk.r"
  let power ← curR.modExp encodedValue pPubKey.n
  power.modMul rar pPubKey.n

def verifyEquality (pPubKey : CredentialPrimaryPublicKey) (proof : PrimaryEqualProof)
    (cHash : BigNumber) (credSchema : CredentialSchema) (nonCredSchema : NonCredentialSchema)
    (subProofRequest : SubProofRequest) : UrsaCryptoResult (List BigNumber) := do
  let unrevealed := unrevealedAttrs credSchema nonCredSchema subProofRequest
  let t1 ← calcTeq pPubKey env proof.aPrime proof.e proof.v proof.m proof.m2 unrevealed
  let rar ← proof.aPrime.modExp largeEStartValue pPubKey.n
  let rar ← proof.revealedAttrs.iter.foldlM (verifyRevealedAttr pPubKey) rar
  let quotient ← pPubKey.z.modDiv rar pPubKey.n
  let inverse ← quotient.inverse pPubKey.n
  let t2 ← inverse.modExp cHash pPubKey.n
  let t ← t1.modMul t2 pPubKey.n
  pure [t]

-- `base ^ (-c_hash) * tau` modulo `n`
def withChallenge (base cHash tau n : BigNumber) : UrsaCryptoResult BigNumber := do
  let power ← base.modExp cHash n
  let inverse ← power.inverse n
  inverse.modMul tau n

def verifyNeRoot (pPubKey : CredentialPrimaryPublicKey) (t : HashMap BigNumber) (cHash : BigNumber)
    (tauList : List BigNumber) (i : ℕ) : UrsaCryptoResult BigNumber := do
  let curT ← okOrElse (t.lookup (toString i)) <|
    .err .proofRejected s!"Value by key '{i}' not found in proof.t"
  let tau ← index tauList i
  withChallenge curT cHash tau pPubKey.n

-- The commitment to the difference, inverted for `LE` and `LT`.
def directDelta (isLess : Bool) (delta n : BigNumber) : UrsaCryptoResult BigNumber :=
  if isLess then delta.inverse n else .ok delta

def verifyNePredicate (pPubKey : CredentialPrimaryPublicKey)
    (proof : PrimaryPredicateInequalityProof) (cHash : BigNumber) :
    UrsaCryptoResult (List BigNumber) := do
  let tauList ← calcTne pPubKey proof.u proof.r proof.mj proof.alpha proof.t proof.predicate.isLess
  let roots ← (List.range iteration).mapM (verifyNeRoot pPubKey proof.t cHash tauList)
  let delta ← okOrElse (proof.t.lookup "DELTA") <|
    .err .proofRejected "Value by key 'DELTA' not found in proof.t"
  let deltaPrime ← directDelta proof.predicate.isLess delta pPubKey.n
  let bound ← pPubKey.z.modExp proof.predicate.getDeltaPrime pPubKey.n
  let tau ← index tauList iteration
  let tauDelta ← withChallenge (bound * deltaPrime) cHash tau pPubKey.n
  let tau ← index tauList (iteration + 1)
  let tauProduct ← withChallenge delta cHash tau pPubKey.n
  pure (roots ++ [tauDelta, tauProduct])

def verifyPrimaryProof (pPubKey : CredentialPrimaryPublicKey) (cHash : BigNumber)
    (primaryProof : PrimaryProof) (credSchema : CredentialSchema)
    (nonCredSchema : NonCredentialSchema) (subProofRequest : SubProofRequest) :
    UrsaCryptoResult (List BigNumber) := do
  let tHat ← verifyEquality env pPubKey primaryProof.eqProof cHash credSchema nonCredSchema
    subProofRequest
  let tHats ← primaryProof.neProofs.mapM (verifyNePredicate pPubKey · cHash)
  pure (tHat ++ tHats.flatten)

def verifyNonRevocationProof (rPubKey : CredentialRevocationPublicKey C)
    (revReg : RevocationRegistry C) (revKeyPub : RevocationKeyPublic C) (cHash : BigNumber)
    (proof : NonRevocProof C) : UrsaCryptoResult (NonRevocProofTauList C) := do
  let chNumZ ← bignumToGroupElement C cHash
  let expected := createTauListExpectedValues rPubKey revReg revKeyPub proof.cList
  let values := createTauListValues rPubKey revReg proof.xList proof.cList
  pure
    { t1 := chNumZ • expected.t1 + values.t1
      t2 := chNumZ • expected.t2 + values.t2
      t3 := chNumZ • expected.t3 + values.t3
      t4 := chNumZ • expected.t4 + values.t4
      t5 := chNumZ • expected.t5 + values.t5
      t6 := chNumZ • expected.t6 + values.t6
      t7 := chNumZ • expected.t7 + values.t7
      t8 := chNumZ • expected.t8 + values.t8 }

-- The optional match of `verify`: unless all four parts are there, nothing is checked and nothing
-- is hashed.
def verifyNonRevocationPart (cHash : BigNumber) (proofItem : SubProof C)
    (credential : VerifiableCredential C) : UrsaCryptoResult (List (List UInt8)) :=
  match proofItem.nonRevocProof, credential.pubKey.rKey, credential.revReg,
      credential.revKeyPub with
  | some nonRevocationProof, some credRevPubKey, some revReg, some revKeyPub => do
    let tauList ← verifyNonRevocationProof credRevPubKey revReg revKeyPub cHash nonRevocationProof
    pure tauList.asSlice
  | _, _, _, _ => pure []

-- Compares `m_hat` of one common attribute with the value of the sub proofs before, or keeps it
-- if there is none yet.
def checkCommonAttribute (m : HashMap BigNumber) (common : HashMap (Option BigNumber))
    (attrName : String) : UrsaCryptoResult (HashMap (Option BigNumber)) :=
  match m.lookup attrName with
  | none =>
    .error <| .err .proofRejected
      s!"Blinded value for common attribute '{attrName}' not found in proof.m"
  | some mHat =>
    match common.lookup attrName with
    | some (some v) =>
      if v ≠ mHat then
        .error <| .err .proofRejected
          s!"Blinded value for common attribute '{attrName}' different across sub proofs"
      else .ok common
    | some none => .ok (common.insert attrName (some mHat))
    | none      => .ok common

-- The values kept before an error stay in the verifier.
def checkCommonAttributes (m : HashMap BigNumber) :
    List String → HashMap (Option BigNumber) → UrsaCryptoResult Unit × HashMap (Option BigNumber)
  | [], common => (.ok (), common)
  | attrName :: attrNames, common =>
    match checkCommonAttribute m common attrName with
    | .error e  => (.error e, common)
    | .ok common => checkCommonAttributes m attrNames common

def verifySubProof (cHash : BigNumber) (proofItem : SubProof C)
    (credential : VerifiableCredential C) (common : HashMap (Option BigNumber)) :
    UrsaCryptoResult (List (List UInt8)) × HashMap (Option BigNumber) :=
  match verifyNonRevocationPart cHash proofItem credential with
  | .error e => (.error e, common)
  | .ok nonRevocTau =>
    match checkCommonAttributes proofItem.primaryProof.eqProof.m (env.hashOrder common.keys)
        common with
    | (.error e, common) => (.error e, common)
    | (.ok _, common) =>
      match verifyPrimaryProof env credential.pubKey.pKey cHash proofItem.primaryProof
          credential.credentialSchema credential.nonCredentialSchema
          credential.subProofRequest with
      | .error e => (.error e, common)
      | .ok tau  => (.ok (nonRevocTau ++ tau.map BigNumber.toBytes), common)

def verifySubProofs (cHash : BigNumber) :
    List (SubProof C × VerifiableCredential C) → HashMap (Option BigNumber) →
      UrsaCryptoResult (List (List UInt8)) × HashMap (Option BigNumber)
  | [], common => (.ok [], common)
  | (proofItem, credential) :: items, common =>
    match verifySubProof env cHash proofItem credential common with
    | (.error e, common) => (.error e, common)
    | (.ok tau, common) =>
      match verifySubProofs cHash items common with
      | (.error e, common)  => (.error e, common)
      | (.ok taus, common) => (.ok (tau ++ taus), common)

-- `verify` takes `&mut self`: the verifier after the call is the second component, also when the
-- call returns `Err`. After the length check `self.credentials[idx]` is the partner of
-- `proof.proofs[idx]` in the zip.
def verify (self : ProofVerifier C) (proof : Proof C) (nonce : Nonce) :
    UrsaCryptoResult Bool × ProofVerifier C :=
  match checkVerifyParamsConsistency self.credentials proof with
  | .error e => (.error e, self)
  | .ok _ =>
    match verifySubProofs env proof.aggregatedProof.cHash (proof.proofs.zip self.credentials)
        self.commonAttributes with
    | (.error e, common) => (.error e, { self with commonAttributes := common })
    | (.ok tauList, common) =>
      let values := tauList ++ proof.aggregatedProof.cList ++ [nonce.toBytes]
      let cHver := getHashAsInt env values
      (.ok (cHver == proof.aggregatedProof.cHash), { self with commonAttributes := common })

end ProofVerifier
end Ursa
