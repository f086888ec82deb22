import Ursa.Cl.Revocation

namespace Ursa

inductive ByteOrder
  | big
  | little

def encodeAttribute (env : Env) (attr : String) (byteOrder : ByteOrder) : BigNumber :=
  let result := BigNumber.hash env attr.toUTF8.toList
  match byteOrder with
  | .big    => BigNumber.fromBytes result
  | .little => BigNumber.fromBytes result.reverse

-- `bitwise_or_big_int` of a draw and of `LARGE_VPRIME_PRIME_VALUE`
def generateVPrimePrime (draw : BnRand largeVPrimePrime) : BigNumber :=
  (draw.val ||| largeVPrimePrimeValue : ℕ)

-- `generate_prime_in_range(LARGE_E_START_VALUE, LARGE_E_END_RANGE_VALUE)` draws a number of this
-- range until it finds a prime. That the result is prime is not used.
structure PrimeDraw where
  value : BigNumber
  start_le : largeEStartValue ≤ value
  lt_end : value < largeEEndRangeValue

-- The draws of one `sign_credential` call. `r` is the result of `rand_range`, which fails for a
-- range that is not positive.
structure SignDraws where
  vPrimePrime : BnRand largeVPrimePrime
  e : PrimeDraw
  r : ℕ

-- `cl/issuer.rs`
namespace Issuer

variable {C : Curve} (env : Env)

-- `bn_rand_range` of `n`: the draw is below `n`, and there is none unless `n` is positive.
def bnRandRange (n : BigNumber) (draw : ℕ) : UrsaCryptoResult BigNumber :=
  if 0 < n then .ok (draw % n) else .error opensslError

-- `gen_x` of `cl/helpers.rs`
def genX (p q : BigNumber) (draw : ℕ) : UrsaCryptoResult BigNumber := do
  let x ← bnRandRange (p * q - 3) draw
  pure (x + 2)

-- `random_qr` of `bn/openssl.rs`
def randomQr (n : BigNumber) (draw : ℕ) : UrsaCryptoResult BigNumber := do
  let x ← bnRandRange n draw
  BigNumber.modulus (x * x) n

-- The result of `generate_safe_prime`.
structure SafePrime where
  value : ℕ
  prime : value.Prime
  safe : (value / 2).Prime

-- The draws of `_new_credential_primary_keys`. For a name that both schemas have, a second number
-- is drawn, and only this one is used.
structure PrimaryKeyDraws where
  pSafe : SafePrime
  qSafe : SafePrime
  s : ℕ
  xz : ℕ
  xr : String → ℕ
  rctxt : ℕ

-- A loop that fills a map with one entry for each key.
def collect (keys : List String) (f : String → UrsaCryptoResult BigNumber) :
    UrsaCryptoResult (HashMap BigNumber) :=
  keys.foldlM (fun m key => do pure <| m.insert key (← f key)) ∅

-- `s ^ x` for one of the exponents in a map.
def power (s n : BigNumber) (x : HashMap BigNumber) (key : String) : UrsaCryptoResult BigNumber := do
  let value ← okOrElse (x.lookup key) <| .panic "no entry found for key"
  s.modExp value n

def newCredentialPrimaryKeys (credentialSchema : CredentialSchema)
    (nonCredentialSchema : NonCredentialSchema) (draws : PrimaryKeyDraws) :
    UrsaCryptoResult (CredentialPrimaryPublicKey × CredentialPrimaryPrivateKey ×
      CredentialPrimaryPublicKeyMetadata) := do
  if credentialSchema.attrs = ∅ then
    .error <| .err .invalidStructure "List of attributes is empty"
  let pSafe : BigNumber := draws.pSafe.value
  let qSafe : BigNumber := draws.qSafe.value
  let p := pSafe.rshift1
  let q := qSafe.rshift1
  let n := pSafe * qSafe
  let s ← randomQr n draws.s
  let xz ← genX p q draws.xz
  let names := BTreeSet.iter nonCredentialSchema.attrs ++ BTreeSet.iter credentialSchema.attrs
  let xr ← collect names fun name => genX p q (draws.xr name)
  let r ← collect (env.hashOrder xr.keys) (power s n xr)
  let z ← s.modExp xz n
  let x ← genX p q draws.rctxt
  let rctxt ← s.modExp x n
  pure ({ n, s, r, rctxt, z }, { p, q }, { xz, xr })

structure KeyProofDraws where
  xzTilda : ℕ
  xrTilda : String → ℕ

def newCredentialKeyCorrectnessProof (credPrPubKey : CredentialPrimaryPublicKey)
    (credPrPrivKey : CredentialPrimaryPrivateKey)
    (credPrPubKeyMeta : CredentialPrimaryPublicKeyMetadata) (draws : KeyProofDraws) :
    UrsaCryptoResult CredentialKeyCorrectnessProof := do
  let ⟨p, q⟩ := credPrPrivKey
  let xzTilda ← genX p q draws.xzTilda
  let xrTilda ← collect (env.hashOrder credPrPubKey.r.keys) fun key =>
    genX p q (draws.xrTilda key)
  let zTilda ← credPrPubKey.s.modExp xzTilda credPrPubKey.n
  let rTilda ← collect (env.hashOrder xrTilda.keys) (power credPrPubKey.s credPrPubKey.n xrTilda)
  let entries := env.iter credPrPubKey.r
  let orderedAttrs := entries.map Prod.fst
  let rTildas ← orderedAttrs.mapM fun attr =>
    okOrElse (rTilda.lookup attr) <| .panic "no entry found for key"
  let values := credPrPubKey.z.toBytes ++ entries.flatMap (·.2.toBytes) ++ zTilda.toBytes ++
    rTildas.flatMap BigNumber.toBytes
  let c := getHashAsInt env [values]
  let xzCap := c * credPrPubKeyMeta.xz + xzTilda
  let xrCap ← orderedAttrs.mapM fun key => do
    let xrTildaValue ← okOrElse (xrTilda.lookup key) <| .panic "no entry found for key"
    let xr ← okOrElse (credPrPubKeyMeta.xr.lookup key) <| .panic "no entry found for key"
    pure (key, c * xr + xrTildaValue)
  pure { c, xzCap, xrCap }

-- The draws of `_new_credential_revocation_keys`. A new point is a random multiple of the generator
-- of its group.
structure RevocationKeyDraws (C : Curve) where
  h : GroupOrderElement C
  h0 : GroupOrderElement C
  h1 : GroupOrderElement C
  h2 : GroupOrderElement C
  htilde : GroupOrderElement C
  g : GroupOrderElement C
  u : GroupOrderElement C
  hCap : GroupOrderElement C
  x : GroupOrderElement C
  sk : GroupOrderElement C
  gDash : GroupOrderElement C

def newCredentialRevocationKeys (genG1 : PointG1 C) (genG2 : PointG2 C)
    (draws : RevocationKeyDraws C) :
    CredentialRevocationPublicKey C × CredentialRevocationPrivateKey C :=
  let g := draws.g • genG1
  let hCap := draws.hCap • genG2
  ({ g
     gDash := draws.gDash • genG2
     h := draws.h • genG1
     h0 := draws.h0 • genG1
     h1 := draws.h1 • genG1
     h2 := draws.h2 • genG1
     htilde := draws.htilde • genG1
     hCap
     u := draws.u • genG2
     pk := draws.sk • g
     y := draws.x • hCap },
    { x := draws.x, sk := draws.sk })

def newRevocationRegistryKeys (credRevPubKey : CredentialRevocationPublicKey C)
    (maxCredNum : UInt32) (gamma : GroupOrderElement C) :
    UrsaCryptoResult (RevocationKeyPublic C × RevocationKeyPrivate C) := do
  let pow ← gamma.powMod (transformU32ToArrayOfU8 (← addU32 maxCredNum 1))
  pure ({ z := pow • C.pair credRevPubKey.g credRevPubKey.gDash }, { gamma })

def getIndex (maxCredNum revIdx : UInt32) : UrsaCryptoResult UInt32 := do
  subU32 (← addU32 maxCredNum 1) revIdx

-- One round of the loop of `_new_revocation_registry`.
def addIndexTail (credRevPubKey : CredentialRevocationPublicKey C)
    (revKeyPriv : RevocationKeyPrivate C) (maxCredNum : UInt32) (accum : Accumulator C) (i : ℕ) :
    UrsaCryptoResult (Accumulator C) := do
  let index ← getIndex maxCredNum <| UInt32.ofNat i
  let tail ← newTail index credRevPubKey.gDash revKeyPriv.gamma
  pure (accum + tail)

def newRevocationRegistry (credRevPubKey : CredentialRevocationPublicKey C)
    (revKeyPriv : RevocationKeyPrivate C) (maxCredNum : UInt32) (issuanceByDefault : Bool) :
    UrsaCryptoResult (RevocationRegistry C) := do
  if issuanceByDefault then
    let accum ← (List.range' 1 maxCredNum.toNat).foldlM
      (addIndexTail credRevPubKey revKeyPriv maxCredNum) 0
    pure { accum }
  else pure { accum := 0 }

-- `gamma` is drawn.
def newRevocationRegistryDef (credentialPubKey : CredentialPublicKey C) (maxCredNum : UInt32)
    (issuanceByDefault : Bool) (gamma : GroupOrderElement C) :
    UrsaCryptoResult (RevocationKeyPublic C × RevocationKeyPrivate C × RevocationRegistry C ×
      RevocationTailsGenerator C) := do
  let credRevPubKey ← okOrElse credentialPubKey.rKey <|
    .err .invalidStructure "There are not revocation keys in the credential public key."
  let (revKeyPub, revKeyPriv) ← newRevocationRegistryKeys credRevPubKey maxCredNum gamma
  let revReg ← newRevocationRegistry credRevPubKey revKeyPriv maxCredNum issuanceByDefault
  let revTailsGenerator ←
    RevocationTailsGenerator.new maxCredNum revKeyPriv.gamma credRevPubKey.gDash
  pure (revKeyPub, revKeyPriv, revReg, revTailsGenerator)

-- One round of the fold that computes `u_cap`.
def checkHiddenAttr (credPrPubKey : CredentialPrimaryPublicKey) (mCaps : BTreeMap BigNumber)
    (acc : UrsaCryptoResult BigNumber) (attr : String) : UrsaCryptoResult BigNumber := do
  let pkR ← okOrElse (credPrPubKey.r.lookup attr) <|
    .err .invalidStructure s!"Value by key '{attr}' not found in cred_pr_pub_key.r"
  let mCap ← okOrElse (mCaps.lookup attr) <| .panic "no entry found for key"
  let acc ← acc
  let power ← pkR.modExp mCap credPrPubKey.n
  acc.modMul power credPrPubKey.n

-- The bytes that one committed attribute adds to the hashed values.
def checkCommittedAttr (credPrPubKey : CredentialPrimaryPublicKey)
    (proof : BlindedCredentialSecretsCorrectnessProof) (values : List UInt8)
    (entry : String × BigNumber) : UrsaCryptoResult (List UInt8) := do
  let (key, value) := entry
  let mCap ← okOrElse (proof.mCaps.lookup key) <| .panic "no entry found for key"
  let inverse ← value.inverse credPrPubKey.n
  let power ← inverse.modExp proof.c credPrPubKey.n
  let rCap ← okOrElse (proof.rCaps.lookup key) <| .panic "no entry found for key"
  let commitment ←
    getPedersenCommitment credPrPubKey.z mCap credPrPubKey.s rCap credPrPubKey.n
  let commAttCap ← power.modMul commitment credPrPubKey.n
  pure <| values ++ commAttCap.toBytes ++ value.toBytes

def checkBlindedCredentialSecretsCorrectnessProof (blindedCredSecrets : BlindedCredentialSecrets C)
    (proof : BlindedCredentialSecretsCorrectnessProof) (nonce : Nonce)
    (credPrPubKey : CredentialPrimaryPublicKey) : UrsaCryptoResult Unit := do
  let n := credPrPubKey.n
  let inverse ← blindedCredSecrets.u.inverse n
  let power ← inverse.modExp proof.c n
  let blinding ← credPrPubKey.s.modExp proof.vDashCap n
  let uCap ← foldResult (checkHiddenAttr credPrPubKey proof.mCaps) (power.modMul blinding n)
    (BTreeSet.iter blindedCredSecrets.hiddenAttributes)
  let values ← blindedCredSecrets.committedAttributes.iter.foldlM
    (checkCommittedAttr credPrPubKey proof) []
  let values := values ++ blindedCredSecrets.u.toBytes ++ uCap.toBytes ++ nonce.toBytes
  let c := getHashAsInt env [values]
  if proof.c ≠ c then
    .error <| .err .invalidStructure "Invalid BlindedCredentialSecrets correctness proof"
  else .ok ()

-- `rev_idx.map(|i| i as i32).unwrap_or(-1)` is hashed as a decimal string.
def genCredentialContext (proverId : String) (revIdx : Option UInt32) : BigNumber :=
  let revIdx : ℤ := (revIdx.map fun i => i.toInt32.toInt).getD (-1)
  let proverIdBn := encodeAttribute env proverId .little
  let revIdxBn := encodeAttribute env (toString revIdx) .little
  getHashAsInt env [proverIdBn.toBytes ++ revIdxBn.toBytes]

-- One factor `R_a ^ m_a` of a known attribute.
def signKnownAttr (pPubKey : CredentialPrimaryPublicKey) (rx : BigNumber)
    (entry : String × CredentialValue) : UrsaCryptoResult BigNumber := do
  let (key, attr) := entry
  let pkR ← okOrElse (pPubKey.r.lookup key) <|
    .err .invalidStructure s!"Value by key '{key}' not found in pk.r"
  let power ← pkR.modExp attr.value pPubKey.n
  power.modMul rx pPubKey.n

-- The entries of the attributes that the issuer knows.
def knownAttrs (credValues : CredentialValues) : List (String × CredentialValue) :=
  credValues.attrsValues.iter.filter (·.2.isKnown)

-- The factor of the prover; `u = 0` stands for none.
def signBlinded (rx u n : BigNumber) : UrsaCryptoResult BigNumber :=
  if u ≠ 0 then rx.modMul u n else .ok rx

def signPrimaryCredential (credPubKey : CredentialPublicKey C)
    (credPrivKey : CredentialPrivateKey C) (credContext : BigNumber)
    (credValues : CredentialValues) (v : BigNumber)
    (blindedCredSecrets : BlindedCredentialSecrets C) (e : BigNumber) :
    UrsaCryptoResult (BigNumber × BigNumber) := do
  let pPubKey := credPubKey.pKey
  let pPrivKey := credPrivKey.pKey
  let rx ← pPubKey.s.modExp v pPubKey.n
  let rx ← signBlinded rx blindedCredSecrets.u pPubKey.n
  let power ← pPubKey.rctxt.modExp credContext pPubKey.n
  let rx ← rx.modMul power pPubKey.n
  let rx ← (knownAttrs credValues).foldlM (signKnownAttr pPubKey) rx
  let q ← pPubKey.z.modDiv rx pPubKey.n
  let n := pPrivKey.p * pPrivKey.q
  let eInverse ← e.inverse n
  let a ← q.modExp eInverse pPubKey.n
  pure (a, q)

def newPrimaryCredential (credentialContext : BigNumber) (credPubKey : CredentialPublicKey C)
    (credPrivKey : CredentialPrivateKey C) (blindedCredentialSecrets : BlindedCredentialSecrets C)
    (credValues : CredentialValues) (draws : SignDraws) :
    UrsaCryptoResult (PrimaryCredentialSignature × BigNumber) := do
  let v := generateVPrimePrime draws.vPrimePrime
  let e := draws.e.value
  let (a, q) ← signPrimaryCredential credPubKey credPrivKey credentialContext credValues v
    blindedCredentialSecrets e
  pure ({ m2 := credentialContext, a, e, v }, q)

def newSignatureCorrectnessProof (pPubKey : CredentialPrimaryPublicKey)
    (pPrivKey : CredentialPrimaryPrivateKey) (pCredSignature : PrimaryCredentialSignature)
    (q nonce : BigNumber) (draw : ℕ) : UrsaCryptoResult SignatureCorrectnessProof := do
  let n := pPrivKey.p * pPrivKey.q
  let r ← bnRandRange n draw
  let aCap ← q.modExp r pPubKey.n
  let values := q.toBytes ++ pCredSignature.a.toBytes ++ aCap.toBytes ++ nonce.toBytes
  let c := getHashAsInt env [values]
  let eInverse ← pCredSignature.e.inverse n
  let product ← c.modMul eInverse n
  let se ← r.modSub product n
  pure { se, c }

def signCredential (proverId : String) (blindedCredentialSecrets : BlindedCredentialSecrets C)
    (blindedCredentialSecretsCorrectnessProof : BlindedCredentialSecretsCorrectnessProof)
    (credentialNonce credentialIssuanceNonce : Nonce) (credentialValues : CredentialValues)
    (credentialPubKey : CredentialPublicKey C) (credentialPrivKey : CredentialPrivateKey C)
    (draws : SignDraws) : UrsaCryptoResult (CredentialSignature C × SignatureCorrectnessProof) := do
  checkBlindedCredentialSecretsCorrectnessProof env blindedCredentialSecrets
    blindedCredentialSecretsCorrectnessProof credentialNonce credentialPubKey.pKey
  let credContext := genCredentialContext env proverId none
  let (pCred, q) ← newPrimaryCredential credContext credentialPubKey credentialPrivKey
    blindedCredentialSecrets credentialValues draws
  let signatureCorrectnessProof ← newSignatureCorrectnessProof env credentialPubKey.pKey
    credentialPrivKey.pKey pCred q credentialIssuanceNonce draws.r
  pure ({ pCredential := pCred, rCredential := none }, signatureCorrectnessProof)

-- The draws of `_new_non_revocation_credential`.
structure NonRevocationDraws (C : Curve) where
  vrPrimePrime : GroupOrderElement C
  c : GroupOrderElement C

-- What a call gives that changes the registry: its result, and the registry after it.
abbrev WithRegistry (C : Curve) (α : Type) := α × RevocationRegistry C

-- The accumulator with the tail of `rev_idx`, and the delta of this change.
def addIndex (maxCredNum revIdx : UInt32) (revReg : RevocationRegistry C)
    (revTailsAccessor : RevocationTailsAccessor C) :
    UrsaCryptoResult (WithRegistry C (RevocationRegistryDelta C)) := do
  let index ← getIndex maxCredNum revIdx
  let tail ← revTailsAccessor index
  let accum := revReg.accum + tail
  pure ({ prevAccum := some revReg.accum, accum, issued := {revIdx}, revoked := ∅ }, { accum })

-- The registry changes last, so that an error leaves it as it was.
def newNonRevocationCredential (revIdx : UInt32) (credContext : BigNumber)
    (blindedCredentialSecrets : BlindedCredentialSecrets C) (credPubKey : CredentialPublicKey C)
    (credPrivKey : CredentialPrivateKey C) (maxCredNum : UInt32) (issuanceByDefault : Bool)
    (revReg : RevocationRegistry C) (revKeyPriv : RevocationKeyPrivate C)
    (revTailsAccessor : RevocationTailsAccessor C) (draws : NonRevocationDraws C) :
    UrsaCryptoResult (WithRegistry C
      (NonRevocationCredentialSignature C × Option (RevocationRegistryDelta C))) := do
  let ur ← okOrElse blindedCredentialSecrets.ur <|
    .err .invalidStructure "No revocation part present in blinded master secret."
  let rPubKey ← okOrElse credPubKey.rKey <|
    .err .invalidStructure
      "No revocation part present in credential revocation public key.er secret."
  let rPrivKey ← okOrElse credPrivKey.rKey <|
    .err .invalidStructure "No revocation part present in credential revocation private key."
  let m2 ← bignumToGroupElement C credContext
  let pow ← revKeyPriv.gamma.powMod (transformU32ToArrayOfU8 revIdx)
  let gI := pow • rPubKey.g
  let inverse ← GroupOrderElement.inverse (rPrivKey.x + draws.c)
  let sigma := inverse •
    (rPubKey.h0 + m2 • rPubKey.h1 + ur + gI + draws.vrPrimePrime • rPubKey.h2)
  let inverse ← GroupOrderElement.inverse (rPrivKey.sk + pow)
  let sigmaI := inverse • rPubKey.gDash
  let uI := pow • rPubKey.u
  let signature : NonRevocationCredentialSignature C :=
    { sigma, c := draws.c, vrPrimePrime := draws.vrPrimePrime
      witnessSignature := { sigmaI, uI, gI }
      gI, i := revIdx, m2 }
  let _ ← getIndex maxCredNum revIdx
  if issuanceByDefault then pure ((signature, none), revReg)
  else
    let (delta, revReg) ← addIndex maxCredNum revIdx revReg revTailsAccessor
    pure ((signature, some delta), revReg)

-- The registry after the call is the second component; it keeps the new accumulator also when the
-- correctness proof fails.
def signCredentialWithRevoc (proverId : String)
    (blindedCredentialSecrets : BlindedCredentialSecrets C)
    (blindedCredentialSecretsCorrectnessProof : BlindedCredentialSecretsCorrectnessProof)
    (credentialNonce credentialIssuanceNonce : Nonce) (credentialValues : CredentialValues)
    (credentialPubKey : CredentialPublicKey C) (credentialPrivKey : CredentialPrivateKey C)
    (revIdx maxCredNum : UInt32) (issuanceByDefault : Bool) (revReg : RevocationRegistry C)
    (revKeyPriv : RevocationKeyPrivate C) (revTailsAccessor : RevocationTailsAccessor C)
    (draws : SignDraws) (revocationDraws : NonRevocationDraws C) :
    WithRegistry C (UrsaCryptoResult (CredentialSignature C × SignatureCorrectnessProof ×
      Option (RevocationRegistryDelta C))) :=
  let credContext := genCredentialContext env proverId (some revIdx)
  let issued := do
    checkBlindedCredentialSecretsCorrectnessProof env blindedCredentialSecrets
      blindedCredentialSecretsCorrectnessProof credentialNonce credentialPubKey.pKey
    let primary ← newPrimaryCredential credContext credentialPubKey credentialPrivKey
      blindedCredentialSecrets credentialValues draws
    let nonRevocation ← newNonRevocationCredential revIdx credContext blindedCredentialSecrets
      credentialPubKey credentialPrivKey maxCredNum issuanceByDefault revReg revKeyPriv
      revTailsAccessor revocationDraws
    pure (primary, nonRevocation)
  match issued with
  | .error e => (.error e, revReg)
  | .ok ((pCred, q), (rCred, revRegDelta), revReg) =>
    let signatureCorrectnessProof := newSignatureCorrectnessProof env credentialPubKey.pKey
      credentialPrivKey.pKey pCred q credentialIssuanceNonce draws.r
    (signatureCorrectnessProof.map fun proof =>
      ({ pCredential := pCred, rCredential := some rCred }, proof, revRegDelta), revReg)

def revokeCredential (revReg : RevocationRegistry C) (maxCredNum revIdx : UInt32)
    (revTailsAccessor : RevocationTailsAccessor C) :
    UrsaCryptoResult (WithRegistry C (RevocationRegistryDelta C)) := do
  let index ← getIndex maxCredNum revIdx
  let tail ← revTailsAccessor index
  let accum := revReg.accum - tail
  pure ({ prevAccum := some revReg.accum, accum, issued := ∅, revoked := {revIdx} }, { accum })

def recoveryCredential (revReg : RevocationRegistry C) (maxCredNum revIdx : UInt32)
    (revTailsAccessor : RevocationTailsAccessor C) :
    UrsaCryptoResult (WithRegistry C (RevocationRegistryDelta C)) :=
  addIndex maxCredNum revIdx revReg revTailsAccessor

end Issuer
end Ursa
