import Ursa.Cl.Profile

namespace Ursa

-- The tails accessors of foreign code, and the calls of the issuer that hand them a closure which
-- changes the registry.

variable {C : Curve}

-- What one call of `access_tail` does: the tails it hands to its closure, in order, and after that
-- its own result.
structure TailAccess (C : Curve) where
  tails : List (Tail C)
  result : UrsaCryptoResult Unit

-- `RevocationTailsAccessor`, of whose implementation nothing is known.
abbrev AnyTailsAccessor (C : Curve) := UInt32 → TailAccess C

namespace TailAccess

-- The implementations that call their closure once, or fail before they do.
def once (revTailsAccessor : RevocationTailsAccessor C) : AnyTailsAccessor C :=
  fun tailId =>
    match revTailsAccessor tailId with
    | .ok tail => { tails := [tail], result := .ok () }
    | .error e => { tails := [], result := .error e }

-- The closures of the issuer: all tails are added to the accumulator, or subtracted from it.
def add (self : TailAccess C) (revReg : RevocationRegistry C) : RevocationRegistry C where
  accum := self.tails.foldl (· + ·) revReg.accum

def sub (self : TailAccess C) (revReg : RevocationRegistry C) : RevocationRegistry C where
  accum := self.tails.foldl (· - ·) revReg.accum

end TailAccess

-- `ffi/cl/mod.rs`: the two callbacks. `take` gives no tail if it fails or sets no pointer, and `put`
-- tells whether it succeeds. The texts of the errors show pointers and callbacks.
structure FFITailsAccessor (C : Curve) where
  take : UInt32 → Option (Tail C)
  put : Tail C → Bool
  takeFailed : UInt32 → String
  putFailed : Tail C → String

def FFITailsAccessor.accessTail (self : FFITailsAccessor C) : AnyTailsAccessor C :=
  fun tailId =>
    match self.take tailId with
    | none      => { tails := [], result := .error <| .err .invalidState <| self.takeFailed tailId }
    | some tail =>
      { tails := [tail]
        result :=
          if self.put tail then .ok () else .error <| .err .invalidState <| self.putFailed tail }

namespace Issuer.InPlace

-- A `release` build asks the accessor for a tail also where `max_cred_num + 1 - rev_idx` does not
-- fit into `u32`.
variable (profile : Profile)

def revokeCredential (revReg : RevocationRegistry C) (maxCredNum revIdx : UInt32)
    (revTailsAccessor : AnyTailsAccessor C) :
    WithRegistry C (UrsaCryptoResult (RevocationRegistryDelta C)) :=
  match profile.getIndex maxCredNum revIdx with
  | .error e  => (.error e, revReg)
  | .ok index =>
    let access := revTailsAccessor index
    let registry := access.sub revReg
    (access.result.map fun _ =>
      { prevAccum := some revReg.accum
        accum := registry.accum
        issued := ∅
        revoked := {revIdx} }, registry)

-- `recovery_credential`, and the part of `_new_non_revocation_credential` that does the same.
def recoveryCredential (revReg : RevocationRegistry C) (maxCredNum revIdx : UInt32)
    (revTailsAccessor : AnyTailsAccessor C) :
    WithRegistry C (UrsaCryptoResult (RevocationRegistryDelta C)) :=
  match profile.getIndex maxCredNum revIdx with
  | .error e  => (.error e, revReg)
  | .ok index =>
    let access := revTailsAccessor index
    let registry := access.add revReg
    (access.result.map fun _ =>
      { prevAccum := some revReg.accum
        accum := registry.accum
        issued := {revIdx}
        revoked := ∅ }, registry)

-- `_new_non_revocation_credential` up to `_get_index`. The `witness_signature` is built from values
-- that are known here.
def signNonRevocation (revIdx : UInt32) (credContext : BigNumber)
    (blindedCredentialSecrets : BlindedCredentialSecrets C) (credPubKey : CredentialPublicKey C)
    (credPrivKey : CredentialPrivateKey C) (maxCredNum : UInt32)
    (revKeyPriv : RevocationKeyPrivate C) (draws : NonRevocationDraws C) :
    UrsaCryptoResult (NonRevocationCredentialSignature C) := do
  let ur ← okOrElse blindedCredentialSecrets.ur <|
    .err .invalidStructure "No revocation part present in blinded master secret."
  let rPubKey ← okOrElse credPubKey.rKey <|
    .err .invalidStructure
      "No revocation part present in credential revocation public key.er secret."
  let rPrivKey ← okOrElse credPrivKey.rKey <|
    .err .invalidStructure "No revocation part present in credential revocation private key."
  let m2 ← bignumToGroupElement C credContext
  let pow ← revKeyPriv.gamma.powMod (transformU32ToArrayOfU8 revIdx)
  let gI := pow • rPubKey.g
  let inverse ← GroupOrderElement.inverse (rPrivKey.x + draws.c)
  let sigma := inverse •
    (rPubKey.h0 + m2 • rPubKey.h1 + ur + gI + draws.vrPrimePrime • rPubKey.h2)
  let inverse ← GroupOrderElement.inverse (rPrivKey.sk + pow)
  let sigmaI := inverse • rPubKey.gDash
  let uI := pow • rPubKey.u
  let _ ← profile.getIndex maxCredNum revIdx
  pure
    { sigma, c := draws.c, vrPrimePrime := draws.vrPrimePrime
      witnessSignature := { sigmaI, uI, gI }
      gI, i := revIdx, m2 }

def newNonRevocationCredential (revIdx : UInt32) (credContext : BigNumber)
    (blindedCredentialSecrets : BlindedCredentialSecrets C) (credPubKey : CredentialPublicKey C)
    (credPrivKey : CredentialPrivateKey C) (maxCredNum : UInt32) (issuanceByDefault : Bool)
    (revReg : RevocationRegistry C) (revKeyPriv : RevocationKeyPrivate C)
    (revTailsAccessor : AnyTailsAccessor C) (draws : NonRevocationDraws C) :
    WithRegistry C (UrsaCryptoResult
      (NonRevocationCredentialSignature C × Option (RevocationRegistryDelta C))) :=
  match signNonRevocation profile revIdx credContext blindedCredentialSecrets credPubKey credPrivKey
    maxCredNum revKeyPriv draws with
  | .error e      => (.error e, revReg)
  | .ok signature =>
    if issuanceByDefault then (.ok (signature, none), revReg)
    else
      let (delta, registry) := recoveryCredential profile revReg maxCredNum revIdx revTailsAccessor
      (delta.map fun delta => (signature, some delta), registry)

-- The arguments of `sign_credential_with_revoc` but for the registry, and its draws.
structure Signing (C : Curve) where
  proverId : String
  blindedCredentialSecrets : BlindedCredentialSecrets C
  blindedCredentialSecretsCorrectnessProof : BlindedCredentialSecretsCorrectnessProof
  credentialNonce : Nonce
  credentialIssuanceNonce : Nonce
  credentialValues : CredentialValues
  credentialPubKey : CredentialPublicKey C
  credentialPrivKey : CredentialPrivateKey C
  revIdx : UInt32
  maxCredNum : UInt32
  issuanceByDefault : Bool
  revKeyPriv : RevocationKeyPrivate C
  revTailsAccessor : AnyTailsAccessor C
  draws : SignDraws
  revocationDraws : NonRevocationDraws C

variable (env : Env)

def Signing.credContext (s : Signing C) : BigNumber :=
  genCredentialContext env s.proverId (some s.revIdx)

-- The steps before the registry can change.
def Signing.primary (s : Signing C) :
    UrsaCryptoResult (PrimaryCredentialSignature × BigNumber) := do
  checkBlindedCredentialSecretsCorrectnessProof env s.blindedCredentialSecrets
    s.blindedCredentialSecretsCorrectnessProof s.credentialNonce s.credentialPubKey.pKey
  newPrimaryCredential (s.credContext env) s.credentialPubKey s.credentialPrivKey
    s.blindedCredentialSecrets s.credentialValues s.draws

def signCredentialWithRevoc (s : Signing C) (revReg : RevocationRegistry C) :
    WithRegistry C (UrsaCryptoResult (CredentialSignature C × SignatureCorrectnessProof ×
      Option (RevocationRegistryDelta C))) :=
  match s.primary env with
  | .error e     => (.error e, revReg)
  | .ok (pCred, q) =>
    let (nonRevocation, registry) := newNonRevocationCredential profile s.revIdx
      (s.credContext env) s.blindedCredentialSecrets s.credentialPubKey s.credentialPrivKey
      s.maxCredNum s.issuanceByDefault revReg s.revKeyPriv s.revTailsAccessor s.revocationDraws
    let result := do
      let (rCred, revRegDelta) ← nonRevocation
      let signatureCorrectnessProof ← newSignatureCorrectnessProof env s.credentialPubKey.pKey
        s.credentialPrivKey.pKey pCred q s.credentialIssuanceNonce s.draws.r
      pure ({ pCredential := pCred, rCredential := some rCred }, signatureCorrectnessProof,
        revRegDelta)
    (result, registry)

-- The three calls that get the registry to change.
inductive Call (C : Curve)
  | sign (s : Signing C)
  | revoke (maxCredNum revIdx : UInt32) (revTailsAccessor : AnyTailsAccessor C)
  | recover (maxCredNum revIdx : UInt32) (revTailsAccessor : AnyTailsAccessor C)

-- The delta of a call that succeeds, and the registry after the call.
def Call.run (revReg : RevocationRegistry C) :
    Call C → WithRegistry C (UrsaCryptoResult (Option (RevocationRegistryDelta C)))
  | sign s =>
    let (result, registry) := signCredentialWithRevoc profile env s revReg
    (result.map (·.2.2), registry)
  | revoke maxCredNum revIdx revTailsAccessor =>
    let (result, registry) := revokeCredential profile revReg maxCredNum revIdx revTailsAccessor
    (result.map some, registry)
  | recover maxCredNum revIdx revTailsAccessor =>
    let (result, registry) := recoveryCredential profile revReg maxCredNum revIdx revTailsAccessor
    (result.map some, registry)

-- The deltas of all calls that succeed, and the registry after the last call.
def runCalls (revReg : RevocationRegistry C) :
    List (Call C) → List (RevocationRegistryDelta C) × RevocationRegistry C
  | []            => ([], revReg)
  | call :: calls =>
    let (result, registry) := call.run profile env revReg
    let (deltas, registry) := runCalls registry calls
    match result with
    | .ok (some delta) => (delta :: deltas, registry)
    | _                => (deltas, registry)

end Issuer.InPlace

end Ursa
