import Ursa.Pair

namespace Ursa

-- `bls/mod.rs`: BLS signatures and multi signatures.

-- `Digest`: what is hashed, and the result of 32 bytes.
structure Digest where
  result : List UInt8 → List UInt8
  length_result : ∀ bs, (result bs).length = 32

-- What the module takes from elsewhere: the two hashes, and the search of `PointG1::from_hash` for
-- the first point of the curve from a hash on.
structure BlsEnv (C : Curve) where
  sha256 : Digest
  keccak256 : Digest
  searchPoint : List UInt8 → PointG1 C

variable {C : Curve}

-- `PointG1::from_hash`
def BlsEnv.fromHash (env : BlsEnv C) (hash : List UInt8) : UrsaCryptoResult (PointG1 C) := do
  let _ ← GroupOrderElement.fromBytes C hash
  pure <| env.searchPoint hash

namespace Bls

structure Generator (C : Curve) where
  point : PointG2 C
  bytes : List UInt8

structure SignKey (C : Curve) where
  groupOrderElement : GroupOrderElement C
  bytes : List UInt8

structure VerKey (C : Curve) where
  point : PointG2 C
  bytes : List UInt8

structure ProofOfPossession (C : Curve) where
  point : PointG1 C
  bytes : List UInt8

structure Signature (C : Curve) where
  point : PointG1 C
  bytes : List UInt8

structure MultiSignature (C : Curve) where
  point : PointG1 C
  bytes : List UInt8

-- The point and the exponent are drawn.
def Generator.new (point : PointG2 C) : UrsaCryptoResult (Generator C) :=
  .ok { point, bytes := C.toBytes₂ point }

def SignKey.new (groupOrderElement : GroupOrderElement C) : UrsaCryptoResult (SignKey C) :=
  .ok { groupOrderElement, bytes := groupOrderElement.toBytes }

def VerKey.new (gen : Generator C) (signKey : SignKey C) : UrsaCryptoResult (VerKey C) :=
  let point := signKey.groupOrderElement • gen.point
  .ok { point, bytes := C.toBytes₂ point }

section Hash

variable (env : BlsEnv C) (message : List UInt8)

def hash (hasher : Digest) : UrsaCryptoResult (PointG1 C) :=
  env.fromHash <| hasher.result message

def genSignature (signKey : SignKey C) (hasher : Digest) : UrsaCryptoResult (PointG1 C) := do
  let h ← hash env message hasher
  pure <| signKey.groupOrderElement • h

-- `Pair::pair2` and `Pair::is_unity`
def verifySignature (signature : PointG1 C) (verKey : PointG2 C) (gen : Generator C)
    (hasher : Digest) : UrsaCryptoResult Bool := do
  let h ← hash env message hasher
  let pair := C.pair signature (-gen.point) + C.pair h verKey
  pure <| pair = 0

def sign (signKey : SignKey C) : UrsaCryptoResult (Signature C) := do
  let point ← genSignature env message signKey env.sha256
  pure { point, bytes := C.toBytes₁ point }

def verify (signature : Signature C) (verKey : VerKey C) (gen : Generator C) :
    UrsaCryptoResult Bool :=
  verifySignature env message signature.point verKey.point gen env.sha256

def verifyMultiSig (multiSig : MultiSignature C) (verKeys : List (VerKey C))
    (gen : Generator C) : UrsaCryptoResult Bool :=
  let aggregatedVerkey := verKeys.foldl (fun aggregated verKey => aggregated + verKey.point) 0
  verifySignature env message multiSig.point aggregatedVerkey gen env.sha256

end Hash

def MultiSignature.new (signatures : List (Signature C)) : UrsaCryptoResult (MultiSignature C) :=
  let point := signatures.foldl (fun point signature => point + signature.point) 0
  .ok { point, bytes := C.toBytes₁ point }

def ProofOfPossession.new (env : BlsEnv C) (verKey : VerKey C) (signKey : SignKey C) :
    UrsaCryptoResult (ProofOfPossession C) := do
  let point ← genSignature env verKey.bytes signKey env.keccak256
  pure { point, bytes := C.toBytes₁ point }

def verifyProofOfPosession (env : BlsEnv C) (pop : ProofOfPossession C) (verKey : VerKey C)
    (gen : Generator C) : UrsaCryptoResult Bool :=
  verifySignature env verKey.bytes pop.point verKey.point gen env.keccak256

end Bls
end Ursa
