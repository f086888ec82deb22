import Ursa.Cl.Helpers

namespace Ursa

-- `cl/prover.rs`
namespace Prover

-- One entry of `xr_cap`: the base, and the commitment that its response opens.
def checkKeyAttr (prPubKey : CredentialPrimaryPublicKey) (c : BigNumber)
    (entry : String × BigNumber) : UrsaCryptoResult (BigNumber × BigNumber) := do
  let (key, xrCapValue) := entry
  let rValue ← okOrElse (prPubKey.r.lookup key) <| .panic "no entry found for key"
  let rInverse ← rValue.inverse prPubKey.n
  let val ← getPedersenCommitment rInverse c prPubKey.s xrCapValue prPubKey.n
  pure (rValue, val)

def checkCredentialKeyCorrectnessProof (env : Env) (prPubKey : CredentialPrimaryPublicKey)
    (keyCorrectnessProof : CredentialKeyCorrectnessProof) : UrsaCryptoResult Unit :=
  let correctnessNames := (keyCorrectnessProof.xrCap.map Prod.fst).toFinset
  -- The first version did not have the master secret in the proof.
  match (env.hashOrder prPubKey.r.keys).find? fun rKey =>
      rKey ∉ correctnessNames ∧ rKey ≠ "master_secret" with
  | some rKey =>
    .error <| .err .invalidStructure
      s!"Value by key '{rKey}' not found in key_correctness_proof.xr_cap"
  | none =>
    match (env.hashOrder correctnessNames).find? (· ∉ prPubKey.r) with
    | some correctnessName =>
      .error <| .err .invalidStructure
        s!"Public key doesn't contains item for {correctnessName} key in key_correctness_proof.xr_cap"
    | none => do
      let zInverse ← prPubKey.z.inverse prPubKey.n
      let zCap ← getPedersenCommitment zInverse keyCorrectnessProof.c prPubKey.s
        keyCorrectnessProof.xzCap prPubKey.n
      let ordered ← keyCorrectnessProof.xrCap.mapM (checkKeyAttr prPubKey keyCorrectnessProof.c)
      let values := prPubKey.z.toBytes ++ ordered.flatMap (·.1.toBytes) ++ zCap.toBytes ++
        ordered.flatMap (·.2.toBytes)
      let c := getHashAsInt env [values]
      if keyCorrectnessProof.c ≠ c then
        .error <| .err .invalidStructure "Invalid Credential key correctness proof"
      else .ok ()

-- The draws of `blind_credential_secrets` that go into its primary part.
structure BlindingDraws where
  vPrime : BnRand largeVPrime
  vDashTilde : BnRand largeVPrimeTilde
  mTilde : String → BnRand largeMTilde
  rTilde : String → BnRand largeMTilde

-- One round of the fold that builds `u`, which looks up its own operands before it looks whether
-- the rounds before it failed.
def blindHiddenAttr (pPubKey : CredentialPrimaryPublicKey) (credentialValues : CredentialValues)
    (acc : UrsaCryptoResult BigNumber) (attr : String) : UrsaCryptoResult BigNumber := do
  let pkR ← okOrElse (pPubKey.r.lookup attr) <|
    .err .invalidStructure s!"Value by key '{attr}' not found in pk.r"
  let credValue ← okOrElse (credentialValues.attrsValues.lookup attr) <| .panic "no entry found"
  let acc ← acc
  let power ← pkR.modExp credValue.value pPubKey.n
  acc.modMul power pPubKey.n

def commitAttr (pPubKey : CredentialPrimaryPublicKey) (committed : BTreeMap BigNumber)
    (entry : String × CredentialValue) : UrsaCryptoResult (BTreeMap BigNumber) :=
  match entry with
  | (attr, .commitment value blindingFactor) => do
    let commitment ←
      getPedersenCommitment pPubKey.s blindingFactor pPubKey.z value pPubKey.n
    pure <| committed.insert attr commitment
  | _ => pure committed

def generateBlindedPrimaryCredentialSecretsFactors (pPubKey : CredentialPrimaryPublicKey)
    (credentialValues : CredentialValues) (draws : BlindingDraws) :
    UrsaCryptoResult PrimaryBlindedCredentialSecretsFactors := do
  let vPrime := draws.vPrime.value
  let hiddenAttributes :=
    ((credentialValues.attrsValues.iter.filter (·.2.isHidden)).map Prod.fst).toFinset
  let u ← foldResult (blindHiddenAttr pPubKey credentialValues)
    (pPubKey.s.modExp vPrime pPubKey.n) (BTreeSet.iter hiddenAttributes)
  let committedAttributes ← credentialValues.attrsValues.iter.foldlM (commitAttr pPubKey) ∅
  pure { u, vPrime, hiddenAttributes, committedAttributes }

-- `vr_prime` is drawn.
def generateBlindedRevocationCredentialSecrets {C : Curve}
    (rPubKey : CredentialRevocationPublicKey C) (vrPrime : GroupOrderElement C) :
    RevocationBlindedCredentialSecretsFactors C where
  ur := vrPrime • rPubKey.h2
  vrPrime := vrPrime

-- What the loop over the hidden and committed attributes gathers: `u_tilde`, the two maps of
-- blindings, and the bytes to be hashed.
structure SecretsCommitments where
  uTilde : BigNumber
  mTildes : BTreeMap BigNumber
  rTildes : BTreeMap BigNumber
  values : List UInt8

def commitSecret (pPubKey : CredentialPrimaryPublicKey)
    (secrets : PrimaryBlindedCredentialSecretsFactors) (draws : BlindingDraws)
    (st : SecretsCommitments) (entry : String × CredentialValue) :
    UrsaCryptoResult SecretsCommitments := do
  let (attr, credValue) := entry
  let mTilde := (draws.mTilde attr).value
  let pkR ← okOrElse (pPubKey.r.lookup attr) <|
    .err .invalidStructure s!"Value by key '{attr}' not found in pk.r"
  match credValue with
  | .hidden _ =>
    let power ← pkR.modExp mTilde pPubKey.n
    let uTilde ← st.uTilde.modMul power pPubKey.n
    pure { st with uTilde, mTildes := st.mTildes.insert attr mTilde }
  | .commitment .. =>
    let rTilde := (draws.rTilde attr).value
    let commitmentTilde ← getPedersenCommitment pPubKey.z mTilde pPubKey.s rTilde pPubKey.n
    let caValue ← okOrElse (secrets.committedAttributes.lookup attr) <|
      .err .invalidStructure
        s!"Value by key '{attr}' not found in primary_blinded_cred_secrets.committed_attributes"
    pure
      { st with
        mTildes := st.mTildes.insert attr mTilde
        rTildes := st.rTildes.insert attr rTilde
        values := st.values ++ commitmentTilde.toBytes ++ caValue.toBytes }
  | .known _ => pure { st with mTildes := st.mTildes.insert attr mTilde }

-- The response `m_cap`, and for a commitment `r_cap`, of one attribute.
def respondSecret (credentialValues : CredentialValues) (c : BigNumber)
    (rTildes : BTreeMap BigNumber) (caps : BTreeMap BigNumber × BTreeMap BigNumber)
    (entry : String × BigNumber) : UrsaCryptoResult (BTreeMap BigNumber × BTreeMap BigNumber) := do
  let (attr, mTilde) := entry
  let (mCaps, rCaps) := caps
  let ca ← okOrElse (credentialValues.attrsValues.lookup attr) <|
    .err .invalidStructure s!"Value by key '{attr}' not found in cred_values.committed_attributes"
  match ca with
  | .hidden value => pure (mCaps.insert attr (mTilde + c * value), rCaps)
  | .commitment value blindingFactor =>
    let rTilde ← okOrElse (rTildes.lookup attr) <| .panic "no entry found"
    pure (mCaps.insert attr (mTilde + c * value), rCaps.insert attr (rTilde + c * blindingFactor))
  | .known _ => pure (mCaps, rCaps)

-- The first half of `_new_blinded_credential_secrets_correctness_proof`, before the challenge.
def commitSecrets (pPubKey : CredentialPrimaryPublicKey)
    (secrets : PrimaryBlindedCredentialSecretsFactors) (credentialValues : CredentialValues)
    (draws : BlindingDraws) : UrsaCryptoResult SecretsCommitments := do
  let uTilde ← pPubKey.s.modExp draws.vDashTilde.value pPubKey.n
  let entries := credentialValues.attrsValues.iter.filter fun entry =>
    entry.2.isHidden || entry.2.isCommitment
  entries.foldlM (commitSecret pPubKey secrets draws)
    { uTilde, mTildes := ∅, rTildes := ∅, values := [] }

-- The second half, for the challenge `c`.
def respondSecrets (secrets : PrimaryBlindedCredentialSecretsFactors)
    (credentialValues : CredentialValues) (draws : BlindingDraws) (st : SecretsCommitments)
    (c : BigNumber) : UrsaCryptoResult BlindedCredentialSecretsCorrectnessProof := do
  let vDashCap := c * secrets.vPrime + draws.vDashTilde.value
  let (mCaps, rCaps) ←
    st.mTildes.iter.foldlM (respondSecret credentialValues c st.rTildes) (∅, ∅)
  pure { c, vDashCap, mCaps, rCaps }

def newBlindedCredentialSecretsCorrectnessProof (env : Env) (pPubKey : CredentialPrimaryPublicKey)
    (secrets : PrimaryBlindedCredentialSecretsFactors) (nonce : BigNumber)
    (credentialValues : CredentialValues) (draws : BlindingDraws) :
    UrsaCryptoResult BlindedCredentialSecretsCorrectnessProof := do
  let st ← commitSecrets pPubKey secrets credentialValues draws
  let values := st.values ++ secrets.u.toBytes ++ st.uTilde.toBytes ++ nonce.toBytes
  let c := getHashAsInt env [values]
  respondSecrets secrets credentialValues draws st c

-- The revocation factors are drawn if the key has a revocation part.
def blindCredentialSecrets {C : Curve} (env : Env) (credentialPubKey : CredentialPublicKey C)
    (credentialKeyCorrectnessProof : CredentialKeyCorrectnessProof)
    (credentialValues : CredentialValues) (credentialNonce : Nonce) (draws : BlindingDraws)
    (vrPrime : GroupOrderElement C) :
    UrsaCryptoResult (BlindedCredentialSecrets C × CredentialSecretsBlindingFactors C ×
      BlindedCredentialSecretsCorrectnessProof) := do
  checkCredentialKeyCorrectnessProof env credentialPubKey.pKey credentialKeyCorrectnessProof
  let primary ← generateBlindedPrimaryCredentialSecretsFactors credentialPubKey.pKey
    credentialValues draws
  let revocation := credentialPubKey.rKey.map fun rPk =>
    generateBlindedRevocationCredentialSecrets rPk vrPrime
  let proof ← newBlindedCredentialSecretsCorrectnessProof env credentialPubKey.pKey primary
    credentialNonce credentialValues draws
  let blindedCredentialSecrets : BlindedCredentialSecrets C :=
    { u := primary.u
      ur := revocation.map (·.ur)
      hiddenAttributes := primary.hiddenAttributes
      committedAttributes := primary.committedAttributes }
  let factors : CredentialSecretsBlindingFactors C :=
    { vPrime := primary.vPrime, vrPrime := revocation.map (·.vrPrime) }
  pure (blindedCredentialSecrets, factors, proof)

def testWitnessSignature {C : Curve} (rCred : NonRevocationCredentialSignature C)
    (credRevPubKey : CredentialRevocationPublicKey C) (revKeyPub : RevocationKeyPublic C)
    (revReg : RevocationRegistry C) (witness : Witness C) (rCnxtM2 : BigNumber) :
    UrsaCryptoResult Unit :=
  let zCalc := C.pair rCred.witnessSignature.gI revReg.accum +
    -C.pair credRevPubKey.g witness.omega
  if zCalc ≠ revKeyPub.z then
    .error <| .err .invalidStructure "Issuer is sending incorrect data"
  else
    let pairGGCalc := C.pair (credRevPubKey.pk + rCred.gI) rCred.witnessSignature.sigmaI
    let pairGG := C.pair credRevPubKey.g credRevPubKey.gDash
    if pairGGCalc ≠ pairGG then
      .error <| .err .invalidStructure "Issuer is sending incorrect data"
    else do
      let m2 ← bignumToGroupElement C rCnxtM2
      let pairH1 := C.pair rCred.sigma (credRevPubKey.y + rCred.c • credRevPubKey.hCap)
      let pairH2 := C.pair
        (credRevPubKey.h0 + m2 • credRevPubKey.h1 + rCred.vrPrimePrime • credRevPubKey.h2 +
          rCred.gI)
        credRevPubKey.hCap
      if pairH1 ≠ pairH2 then
        .error <| .err .invalidStructure "Issuer is sending incorrect data"
      else .ok ()

-- `_process_primary_credential`, which changes `v` in place and cannot fail
def processPrimaryCredential (pCred : PrimaryCredentialSignature) (vPrime : BigNumber) :
    PrimaryCredentialSignature :=
  { pCred with v := vPrime + pCred.v }

-- The signature after the call is the second component: it is blinded before it is tested.
def processNonRevocationCredential {C : Curve} (rCred : NonRevocationCredentialSignature C)
    (vrPrime : GroupOrderElement C) (credRevPubKey : CredentialRevocationPublicKey C)
    (revKeyPub : RevocationKeyPublic C) (revReg : RevocationRegistry C) (witness : Witness C) :
    UrsaCryptoResult Unit × NonRevocationCredentialSignature C :=
  let rCnxtM2 := groupElementToBignum rCred.m2
  let rCred := { rCred with vrPrimePrime := vrPrime + rCred.vrPrimePrime }
  (testWitnessSignature rCred credRevPubKey revKeyPub revReg witness rCnxtM2, rCred)

-- The attributes that are part of the signature.
def isSigned (value : CredentialValue) : Bool :=
  value.isKnown || value.isHidden

-- One round of the fold that computes `rx`.
def mulSignedAttr (pPubKey : CredentialPrimaryPublicKey) (acc : BigNumber)
    (entry : String × CredentialValue) : UrsaCryptoResult BigNumber := do
  let pkR ← okOrElse (pPubKey.r.lookup entry.1) <| .panic "no entry found for key"
  let power ← pkR.modExp entry.2.value pPubKey.n
  acc.modMul power pPubKey.n

-- `isPrime` is the primality test of OpenSSL.
def checkSignatureCorrectnessProof (env : Env) (isPrime : BigNumber → UrsaCryptoResult Bool)
    (pCredSig : PrimaryCredentialSignature) (credValues : CredentialValues)
    (signatureCorrectnessProof : SignatureCorrectnessProof) (pPubKey : CredentialPrimaryPublicKey)
    (nonce : Nonce) : UrsaCryptoResult Unit := do
  let prime ← isPrime pCredSig.e
  if !prime then .error <| .err .invalidStructure "Invalid Signature correctness proof"
  let entries := credValues.attrsValues.iter.filter (isSigned ·.2)
  match entries.find? fun entry => entry.1 ∉ pPubKey.r with
  | some (attr, _) =>
    .error <| .err .invalidStructure s!"Value by key '{attr}' not found in public key"
  | none => do
    let rx ←
      getPedersenCommitment pPubKey.s pCredSig.v pPubKey.rctxt pCredSig.m2 pPubKey.n
    let rx ← (entries.filter fun entry => entry.1 ∈ pPubKey.r).foldlM (mulSignedAttr pPubKey) rx
    let q ← pPubKey.z.modDiv rx pPubKey.n
    let expectedQ ← pCredSig.a.modExp pCredSig.e pPubKey.n
    if q ≠ expectedQ then
      .error <| .err .invalidStructure "Invalid Signature correctness proof q != q'"
    let degree := signatureCorrectnessProof.c + signatureCorrectnessProof.se * pCredSig.e
    let aCap ← pCredSig.a.modExp degree pPubKey.n
    let values := q.toBytes ++ pCredSig.a.toBytes ++ aCap.toBytes ++ nonce.toBytes
    if signatureCorrectnessProof.c ≠ getHashAsInt env [values] then
      .error <| .err .invalidStructure "Invalid Signature correctness proof c != c'"

-- The signature after the call is the second component, also when the call returns `Err`: both of
-- its parts are blinded in place before they are checked.
def processCredentialSignature {C : Curve} (env : Env)
    (isPrime : BigNumber → UrsaCryptoResult Bool) (credentialSignature : CredentialSignature C)
    (credentialValues : CredentialValues) (signatureCorrectnessProof : SignatureCorrectnessProof)
    (factors : CredentialSecretsBlindingFactors C) (credentialPubKey : CredentialPublicKey C)
    (nonce : Nonce) (revKeyPub : Option (RevocationKeyPublic C))
    (revReg : Option (RevocationRegistry C)) (witness : Option (Witness C)) :
    UrsaCryptoResult Unit × CredentialSignature C :=
  let pCredential := processPrimaryCredential credentialSignature.pCredential factors.vPrime
  let credentialSignature := { credentialSignature with pCredential }
  match checkSignatureCorrectnessProof env isPrime pCredential credentialValues
      signatureCorrectnessProof credentialPubKey.pKey nonce with
  | .error e => (.error e, credentialSignature)
  | .ok _ =>
    match credentialSignature.rCredential, factors.vrPrime, credentialPubKey.rKey, revKeyPub,
        revReg, witness with
    | some nonRevocationCred, some vrPrime, some rKey, some rKeyPub, some rReg, some witness =>
      let (result, nonRevocationCred) :=
        processNonRevocationCredential nonRevocationCred vrPrime rKey rKeyPub rReg witness
      (result, { credentialSignature with rCredential := some nonRevocationCred })
    | _, _, _, _, _, _ => (.ok (), credentialSignature)

end Prover

-- The draws of one `add_sub_proof_request` call.
structure EqProofDraws where
  m2Tilde : BnRand largeMVect
  r : BnRand largeVPrime
  eTilde : BnRand largeETilde
  vTilde : BnRand largeVTilde
  mTilde : String → BnRand largeMVect

structure NeProofDraws where
  r : ℕ → BnRand largeVPrime
  rDelta : BnRand largeVPrime
  uTilde : ℕ → BnRand largeUTilde
  rTilde : ℕ → BnRand largeRTilde
  rTildeDelta : BnRand largeRTilde
  alphaTilde : BnRand largeAlphaTilde

structure CListDraws (C : Curve) where
  rho : GroupOrderElement C
  r : GroupOrderElement C
  rPrime : GroupOrderElement C
  rPrimePrime : GroupOrderElement C
  rPrimePrimePrime : GroupOrderElement C
  o : GroupOrderElement C
  oPrime : GroupOrderElement C

structure SubProofDraws (C : Curve) where
  eqProof : EqProofDraws
  neProof : Predicate → NeProofDraws
  cListParams : CListDraws C
  tauListParams : NonRevocProofXList C

structure ProofBuilder (C : Curve) where
  commonAttributes : HashMap BigNumber
  initProofs : List (InitProof C)
  cList : List (List UInt8)
  tauList : List (List UInt8)

namespace ProofBuilder

variable {C : Curve} (env : Env)

-- `Prover::new_proof_builder`
def new (C : Curve) : ProofBuilder C where
  commonAttributes := ∅
  initProofs := []
  cList := []
  tauList := []

def addCommonAttribute (self : ProofBuilder C) (attrName : String) (draw : BnRand largeMVect) :
    ProofBuilder C :=
  { self with commonAttributes := self.commonAttributes.insert attrName draw.value }

def checkAddSubProofRequestParamsConsistency (credValues : CredentialValues)
    (subProofRequest : SubProofRequest) (credSchema : CredentialSchema)
    (nonCredentialSchema : NonCredentialSchema) : UrsaCryptoResult Unit :=
  let schemaAttrs := nonCredentialSchema.attrs ∪ credSchema.attrs
  let credAttrs := credValues.attrsValues.keys
  if schemaAttrs ≠ credAttrs then
    .error <| .err .invalidStructure "Credential doesn't correspond to credential schema"
  else if subProofRequest.revealedAttrs \ credAttrs ≠ ∅ then
    .error <| .err .invalidStructure "Credential doesn't contain requested attribute"
  else if subProofRequest.predicates.image Predicate.attrName \ credAttrs ≠ ∅ then
    .error <| .err .invalidStructure "Credential doesn't contain attribute requested in predicate"
  else .ok ()

def unrevealedAttrs (credSchema : CredentialSchema) (nonCredSchemaElems : NonCredentialSchema)
    (subProofRequest : SubProofRequest) : BTreeSet String :=
  (nonCredSchemaElems.attrs ∪ credSchema.attrs) \ subProofRequest.revealedAttrs

def initEqProof (commonAttributes : HashMap BigNumber) (credPubKey : CredentialPrimaryPublicKey)
    (c1 : PrimaryCredentialSignature) (credSchema : CredentialSchema)
    (nonCredSchemaElems : NonCredentialSchema) (subProofRequest : SubProofRequest)
    (m2T : Option BigNumber) (draws : EqProofDraws) : UrsaCryptoResult PrimaryEqualInitProof := do
  let m2Tilde := m2T.getD draws.m2Tilde.value
  let r := draws.r.value
  let eTilde := draws.eTilde.value
  let vTilde := draws.vTilde.value
  let unrevealed := unrevealedAttrs credSchema nonCredSchemaElems subProofRequest
  let mTilde := getMtilde env unrevealed commonAttributes draws.mTilde
  let power ← credPubKey.s.modExp r credPubKey.n
  let aPrime ← power.modMul c1.a credPubKey.n
  let ePrime := c1.e - largeEStartValue
  let vPrime := c1.v - c1.e * r
  let t ← calcTeq credPubKey env aPrime eTilde vTilde mTilde m2Tilde unrevealed
  pure { aPrime, t, eTilde, ePrime, vTilde, vPrime, mTilde, m2Tilde, m2 := c1.m2 }

-- `to_dec().parse::<i32>()` of an attribute value
def parseI32 (value : BigNumber) (attrName : String) : UrsaCryptoResult Int32 :=
  if -2 ^ 31 ≤ value ∧ value < 2 ^ 31 then .ok (Int32.ofInt value)
  else .error <| .err .invalidStructure s!"Value by key '{attrName}' has invalid format"

-- The commitment `T_i = Z ^ u_i * S ^ r_i`.
def commitRoot (pPubKey : CredentialPrimaryPublicKey) (u : HashMap BigNumber)
    (draws : NeProofDraws) (i : ℕ) : UrsaCryptoResult BigNumber := do
  let curU ← okOrElse (u.lookup (toString i)) <|
    .err .invalidStructure s!"Value by key '{i}' not found in u1"
  getPedersenCommitment pPubKey.z curU pPubKey.s (draws.r i).value pPubKey.n

-- A map with the keys `"0"` to `"3"`.
def iterationMap (f : ℕ → BigNumber) : HashMap BigNumber :=
  (List.range iteration).foldl (fun m i => m.insert (toString i) (f i)) ∅

def initNeProof (pPubKey : CredentialPrimaryPublicKey) (mTilde : HashMap BigNumber)
    (credValues : CredentialValues) (predicate : Predicate) (draws : NeProofDraws) :
    UrsaCryptoResult PrimaryPredicateInequalityInitProof := do
  let credValue ← okOrElse (credValues.attrsValues.lookup predicate.attrName) <|
    .err .invalidStructure s!"Value by key '{predicate.attrName}' not found in cred_values"
  let attrValue ← parseI32 credValue.value predicate.attrName
  let delta := predicate.getDelta attrValue
  if delta.toInt < 0 then
    .error <| .err .invalidStructure "Predicate is not satisfied"
  else do
    let u ← fourSquares delta
    let roots ← (List.range iteration).mapM (commitRoot pPubKey u draws)
    let tDelta ← getPedersenCommitment pPubKey.z delta.toInt pPubKey.s draws.rDelta.value pPubKey.n
    let r := (iterationMap fun i => (draws.r i).value).insert "DELTA" draws.rDelta.value
    let t := (iterationMap fun i => roots.getD i 0).insert "DELTA" tDelta
    let uTilde := iterationMap fun i => (draws.uTilde i).value
    let rTilde :=
      (iterationMap fun i => (draws.rTilde i).value).insert "DELTA" draws.rTildeDelta.value
    let mj ← okOrElse (mTilde.lookup predicate.attrName) <|
      .err .invalidStructure s!"Value by key '{predicate.attrName}' not found in eq_proof.mtilde"
    let tauList ← calcTne pPubKey uTilde rTilde mj draws.alphaTilde.value t predicate.isLess
    pure
      { cList := roots ++ [tDelta]
        tauList, u, uTilde, r, rTilde, alphaTilde := draws.alphaTilde.value, predicate, t }

def initPrimaryProof (commonAttributes : HashMap BigNumber)
    (issuerPubKey : CredentialPrimaryPublicKey) (c1 : PrimaryCredentialSignature)
    (credValues : CredentialValues) (credSchema : CredentialSchema)
    (nonCredSchemaElems : NonCredentialSchema) (subProofRequest : SubProofRequest)
    (m2T : Option BigNumber) (eqDraws : EqProofDraws) (neDraws : Predicate → NeProofDraws) :
    UrsaCryptoResult PrimaryInitProof := do
  let eqProof ← initEqProof env commonAttributes issuerPubKey c1 credSchema nonCredSchemaElems
    subProofRequest m2T eqDraws
  let neProofs ← (BTreeSet.iter subProofRequest.predicates).mapM fun predicate =>
    initNeProof issuerPubKey eqProof.mTilde credValues predicate (neDraws predicate)
  pure { eqProof, neProofs }

def genCListParams (rCred : NonRevocationCredentialSignature C) (draws : CListDraws C) :
    NonRevocProofXList C where
  rho := draws.rho
  r := draws.r
  rPrime := draws.rPrime
  rPrimePrime := draws.rPrimePrime
  rPrimePrimePrime := draws.rPrimePrimePrime
  o := draws.o
  oPrime := draws.oPrime
  m := draws.rho * rCred.c
  mPrime := draws.r * draws.rPrimePrime
  t := draws.o * rCred.c
  tPrime := draws.oPrime * draws.rPrimePrime
  m2 := rCred.m2
  s := rCred.vrPrimePrime
  c := rCred.c

def createCListValues (rCred : NonRevocationCredentialSignature C) (params : NonRevocProofXList C)
    (rPubKey : CredentialRevocationPublicKey C) (witness : Witness C) : NonRevocProofCList C where
  e := params.rho • rPubKey.h + params.o • rPubKey.htilde
  d := params.r • rPubKey.g + params.oPrime • rPubKey.htilde
  a := rCred.sigma + params.rho • rPubKey.htilde
  g := rCred.gI + params.r • rPubKey.htilde
  w := witness.omega + params.rPrime • rPubKey.hCap
  s := rCred.witnessSignature.sigmaI + params.rPrimePrime • rPubKey.hCap
  u := rCred.witnessSignature.uI + params.rPrimePrimePrime • rPubKey.hCap

def initNonRevocationProof (rCred : NonRevocationCredentialSignature C)
    (revReg : RevocationRegistry C) (credRevPubKey : CredentialRevocationPublicKey C)
    (witness : Witness C) (cListDraws : CListDraws C) (tauListParams : NonRevocProofXList C) :
    NonRevocInitProof C :=
  let cListParams := genCListParams rCred cListDraws
  let cList := createCListValues rCred cListParams credRevPubKey witness
  let tauList := createTauListValues credRevPubKey revReg tauListParams cList
  { cListParams, tauListParams, cList, tauList }

-- The optional match of `add_sub_proof_request`.
def initNonRevocationPart (credentialSignature : CredentialSignature C)
    (credentialPubKey : CredentialPublicKey C) (revReg : Option (RevocationRegistry C))
    (witness : Option (Witness C)) (draws : SubProofDraws C) : Option (NonRevocInitProof C) :=
  match credentialSignature.rCredential, revReg, credentialPubKey.rKey, witness with
  | some rCred, some rReg, some rPubKey, some witness =>
    some <| initNonRevocationProof rCred rReg rPubKey witness draws.cListParams draws.tauListParams
  | _, _, _, _ => none

-- With a non-revocation part `m2_tilde` is the blinding that was drawn there for `m2`.
def sharedM2Tilde (nonRevocInitProof : Option (NonRevocInitProof C)) : Option BigNumber :=
  nonRevocInitProof.map fun proof => groupElementToBignum proof.tauListParams.m2

def commitNonRevocationPart (self : ProofBuilder C)
    (nonRevocInitProof : Option (NonRevocInitProof C)) : ProofBuilder C :=
  match nonRevocInitProof with
  | some proof =>
    { self with
      cList := self.cList ++ proof.cList.asList
      tauList := self.tauList ++ proof.tauList.asSlice }
  | none => self

-- The builder after the call is the second component; `c_list` and `tau_list` keep the
-- non-revocation part also when the primary part fails.
def addSubProofRequest (self : ProofBuilder C) (subProofRequest : SubProofRequest)
    (credentialSchema : CredentialSchema) (nonCredentialSchema : NonCredentialSchema)
    (credentialSignature : CredentialSignature C) (credentialValues : CredentialValues)
    (credentialPubKey : CredentialPublicKey C) (revReg : Option (RevocationRegistry C))
    (witness : Option (Witness C)) (draws : SubProofDraws C) :
    UrsaCryptoResult Unit × ProofBuilder C :=
  match checkAddSubProofRequestParamsConsistency credentialValues subProofRequest credentialSchema
      nonCredentialSchema with
  | .error e => (.error e, self)
  | .ok _ =>
    let nonRevocInitProof :=
      initNonRevocationPart credentialSignature credentialPubKey revReg witness draws
    let self := self.commitNonRevocationPart nonRevocInitProof
    match initPrimaryProof env self.commonAttributes credentialPubKey.pKey
        credentialSignature.pCredential credentialValues credentialSchema nonCredentialSchema
        subProofRequest (sharedM2Tilde nonRevocInitProof) draws.eqProof draws.neProof with
    | .error e => (.error e, self)
    | .ok primaryInitProof =>
      let initProof : InitProof C :=
        { primaryInitProof, nonRevocInitProof, credentialValues, subProofRequest,
          credentialSchema, nonCredentialSchema }
      (.ok (),
        { self with
          initProofs := self.initProofs ++ [initProof]
          cList := self.cList ++ primaryInitProof.asCList
          tauList := self.tauList ++ primaryInitProof.asTauList })

-- `m_hat` of one attribute: `challenge * value + m_tilde`.
def respondAttr (initProof : PrimaryEqualInitProof) (challenge : BigNumber)
    (credValues : CredentialValues) (mHat : HashMap BigNumber) (k : String) :
    UrsaCryptoResult (HashMap BigNumber) := do
  let curMtilde ← okOrElse (initProof.mTilde.lookup k) <|
    .err .invalidStructure s!"Value by key '{k}' not found in init_proof.mtilde"
  let curVal ← okOrElse (credValues.attrsValues.lookup k) <|
    .err .invalidStructure s!"Value by key '{k}' not found in attributes_values"
  pure <| mHat.insert k (challenge * curVal.value + curMtilde)

def revealAttr (credValues : CredentialValues) (revealed : BTreeMap BigNumber) (attr : String) :
    UrsaCryptoResult (BTreeMap BigNumber) := do
  let credValue ← okOrElse (credValues.attrsValues.lookup attr) <|
    .err .invalidStructure "Encoded value not found"
  pure <| revealed.insert attr credValue.value

def finalizeEqProof (initProof : PrimaryEqualInitProof) (challenge : BigNumber)
    (credSchema : CredentialSchema) (nonCredSchemaElems : NonCredentialSchema)
    (credValues : CredentialValues) (subProofRequest : SubProofRequest) :
    UrsaCryptoResult PrimaryEqualProof := do
  let e := challenge * initProof.ePrime + initProof.eTilde
  let v := challenge * initProof.vPrime + initProof.vTilde
  let unrevealed := unrevealedAttrs credSchema nonCredSchemaElems subProofRequest
  let m ← unrevealed.iter.foldlM (respondAttr initProof challenge credValues) ∅
  let m2 := challenge * initProof.m2 + initProof.m2Tilde
  let revealedAttrs ←
    (BTreeSet.iter subProofRequest.revealedAttrs).foldlM (revealAttr credValues) ∅
  pure { revealedAttrs, aPrime := initProof.aPrime, e, v, m, m2 }

-- The responses and the product `u_i * r_i` of one of the four roots. A missing key panics.
structure RootResponse where
  u : BigNumber
  r : BigNumber
  ur : BigNumber

def respondRoot (cH : BigNumber) (initProof : PrimaryPredicateInequalityInitProof) (i : ℕ) :
    UrsaCryptoResult RootResponse := do
  let curUtilde ← okOrElse (initProof.uTilde.lookup (toString i)) <| .panic "no entry found"
  let curU ← okOrElse (initProof.u.lookup (toString i)) <| .panic "no entry found"
  let curRtilde ← okOrElse (initProof.rTilde.lookup (toString i)) <| .panic "no entry found"
  let curR ← okOrElse (initProof.r.lookup (toString i)) <| .panic "no entry found"
  pure { u := cH * curU + curUtilde, r := cH * curR + curRtilde, ur := curU * curR }

-- `r["DELTA"]` is computed in every round of the loop, always with the same value.
def finalizeNeProof (cH : BigNumber) (initProof : PrimaryPredicateInequalityInitProof)
    (eqProof : PrimaryEqualProof) : UrsaCryptoResult PrimaryPredicateInequalityProof := do
  let responses ← (List.range iteration).mapM (respondRoot cH initProof)
  let curRtildeDelta ← okOrElse (initProof.rTilde.lookup "DELTA") <| .panic "no entry found"
  let rDelta ← okOrElse (initProof.r.lookup "DELTA") <| .panic "no entry found"
  let urproduct := (responses.map (·.ur)).sum
  let alpha := (rDelta - urproduct) * cH + initProof.alphaTilde
  let mj ← okOrElse (eqProof.m.lookup initProof.predicate.attrName) <| .panic "no entry found"
  let respond (f : RootResponse → BigNumber) (i : ℕ) : BigNumber :=
    (responses[i]?.map f).getD 0
  pure
    { u := iterationMap (respond (·.u))
      r := (iterationMap (respond (·.r))).insert "DELTA" (cH * rDelta + curRtildeDelta)
      mj, alpha, t := initProof.t, predicate := initProof.predicate }

def finalizePrimaryProof (initProof : PrimaryInitProof) (challenge : BigNumber)
    (credSchema : CredentialSchema) (nonCredSchemaElems : NonCredentialSchema)
    (credValues : CredentialValues) (subProofRequest : SubProofRequest) :
    UrsaCryptoResult PrimaryProof := do
  let eqProof ← finalizeEqProof initProof.eqProof challenge credSchema nonCredSchemaElems
    credValues subProofRequest
  let neProofs ← initProof.neProofs.mapM (finalizeNeProof challenge · eqProof)
  pure { eqProof, neProofs }

def finalizeNonRevocationProof (initProof : NonRevocInitProof C) (cH : BigNumber) :
    UrsaCryptoResult (NonRevocProof C) := do
  let chNumZ ← bignumToGroupElement C cH
  let xList := List.zipWith (fun x y => x + -(chNumZ * y))
    initProof.tauListParams.asList initProof.cListParams.asList
  pure { xList := .fromList xList, cList := initProof.cList }

def finalizeNonRevocationPart (nonRevocInitProof : Option (NonRevocInitProof C))
    (challenge : BigNumber) : UrsaCryptoResult (Option (NonRevocProof C)) :=
  match nonRevocInitProof with
  | some nonRevocInitProof => some <$> finalizeNonRevocationProof nonRevocInitProof challenge
  | none                   => .ok none

def finalizeSubProof (challenge : BigNumber) (initProof : InitProof C) :
    UrsaCryptoResult (SubProof C) := do
  let nonRevocProof ← finalizeNonRevocationPart initProof.nonRevocInitProof challenge
  let primaryProof ← finalizePrimaryProof initProof.primaryInitProof challenge
    initProof.credentialSchema initProof.nonCredentialSchema initProof.credentialValues
    initProof.subProofRequest
  pure { primaryProof, nonRevocProof }

def finalize (self : ProofBuilder C) (nonce : Nonce) : UrsaCryptoResult (Proof C) := do
  let values := self.tauList ++ self.cList ++ [nonce.toBytes]
  let challenge := getHashAsInt env values
  let proofs ← self.initProofs.mapM (finalizeSubProof challenge)
  pure { proofs, aggregatedProof := { cHash := challenge, cList := self.cList } }

end ProofBuilder
end Ursa
