import Ursa.Cl.Issuer

namespace Ursa

-- The profile of a build. What `+`, `-` and `*` of `u32` do with a result that does not fit depends
-- on it: `dev` panics, and `release`, for which `Cargo.toml` asks for no checks, wraps around.
inductive Profile
  | dev
  | release
  deriving DecidableEq, Repr

namespace Profile

def arith (profile : Profile) (checked : UrsaCryptoResult UInt32) (wrapped : UInt32) :
    UrsaCryptoResult UInt32 :=
  match profile with
  | dev     => checked
  | release => .ok wrapped

def addU32 (profile : Profile) (a b : UInt32) : UrsaCryptoResult UInt32 :=
  profile.arith (Ursa.addU32 a b) (a + b)

def subU32 (profile : Profile) (a b : UInt32) : UrsaCryptoResult UInt32 :=
  profile.arith (Ursa.subU32 a b) (a - b)

def mulU32 (profile : Profile) (a b : UInt32) : UrsaCryptoResult UInt32 :=
  profile.arith (Ursa.mulU32 a b) (a * b)

variable {C : Curve} (profile : Profile)

-- What `new_revocation_registry_def` calls, and the indices of the witnesses, once more in a build of
-- the profile.
def newRevocationRegistryKeys (credRevPubKey : CredentialRevocationPublicKey C)
    (maxCredNum : UInt32) (gamma : GroupOrderElement C) :
    UrsaCryptoResult (RevocationKeyPublic C × RevocationKeyPrivate C) := do
  let pow ← gamma.powMod (transformU32ToArrayOfU8 (← profile.addU32 maxCredNum 1))
  pure ({ z := pow • C.pair credRevPubKey.g credRevPubKey.gDash }, { gamma })

def getIndex (maxCredNum revIdx : UInt32) : UrsaCryptoResult UInt32 := do
  profile.subU32 (← profile.addU32 maxCredNum 1) revIdx

def addIndexTail (credRevPubKey : CredentialRevocationPublicKey C)
    (revKeyPriv : RevocationKeyPrivate C) (maxCredNum : UInt32) (accum : Accumulator C) (i : ℕ) :
    UrsaCryptoResult (Accumulator C) := do
  let index ← profile.getIndex maxCredNum <| UInt32.ofNat i
  let tail ← newTail index credRevPubKey.gDash revKeyPriv.gamma
  pure (accum + tail)

def newRevocationRegistry (credRevPubKey : CredentialRevocationPublicKey C)
    (revKeyPriv : RevocationKeyPrivate C) (maxCredNum : UInt32) (issuanceByDefault : Bool) :
    UrsaCryptoResult (RevocationRegistry C) := do
  if issuanceByDefault then
    let accum ← (List.range' 1 maxCredNum.toNat).foldlM
      (profile.addIndexTail credRevPubKey revKeyPriv maxCredNum) 0
    pure { accum }
  else pure { accum := 0 }

-- `RevocationTailsGenerator::new`
def newRevocationTailsGenerator (maxCredNum : UInt32) (gamma : GroupOrderElement C)
    (gDash : PointG2 C) : UrsaCryptoResult (RevocationTailsGenerator C) := do
  let size ← profile.addU32 (← profile.mulU32 2 maxCredNum) 1
  pure { size, currentIndex := 0, gDash, gamma }

def tryNext (self : RevocationTailsGenerator C) :
    UrsaCryptoResult (Option (Tail C) × RevocationTailsGenerator C) :=
  if self.size ≤ self.currentIndex then .ok (none, self)
  else do
    let tail ← newTail self.currentIndex self.gDash self.gamma
    let currentIndex ← profile.addU32 self.currentIndex 1
    pure (some tail, { self with currentIndex })

def newRevocationRegistryDef (credentialPubKey : CredentialPublicKey C) (maxCredNum : UInt32)
    (issuanceByDefault : Bool) (gamma : GroupOrderElement C) :
    UrsaCryptoResult (RevocationKeyPublic C × RevocationKeyPrivate C × RevocationRegistry C ×
      RevocationTailsGenerator C) := do
  let credRevPubKey ← okOrElse credentialPubKey.rKey <|
    .err .invalidStructure "There are not revocation keys in the credential public key."
  let (revKeyPub, revKeyPriv) ← profile.newRevocationRegistryKeys credRevPubKey maxCredNum gamma
  let revReg ← profile.newRevocationRegistry credRevPubKey revKeyPriv maxCredNum issuanceByDefault
  let revTailsGenerator ←
    profile.newRevocationTailsGenerator maxCredNum revKeyPriv.gamma credRevPubKey.gDash
  pure (revKeyPub, revKeyPriv, revReg, revTailsGenerator)

def witnessIndex (maxCredNum j revIdx : UInt32) : UrsaCryptoResult UInt32 := do
  profile.addU32 (← profile.subU32 (← profile.addU32 maxCredNum 1) j) revIdx

-- The definitions without a profile are those of `dev`.
theorem newRevocationRegistryDef_dev : dev.newRevocationRegistryDef (C := C) =
    Issuer.newRevocationRegistryDef :=
  rfl

theorem getIndex_dev : dev.getIndex = Issuer.getIndex :=
  rfl

theorem witnessIndex_dev : dev.witnessIndex = Ursa.witnessIndex :=
  rfl

end Profile
end Ursa
