import Ursa.Cl.Constants
import Ursa.Pair

namespace Ursa

-- `cl/mod.rs`: the entities that issuer, prover and verifier exchange.

structure CredentialSchema where
  attrs : BTreeSet String

structure NonCredentialSchema where
  attrs : BTreeSet String

-- `known`: issuer and prover know the value. `hidden`: only the prover does, who binds it into
-- `u`. `commitment`: only the prover does, and the value is not part of the credential.
inductive CredentialValue
  | known (value : BigNumber)
  | hidden (value : BigNumber)
  | commitment (value blindingFactor : BigNumber)
  deriving DecidableEq

namespace CredentialValue

def isKnown : CredentialValue → Bool
  | known _ => true
  | _       => false

def isHidden : CredentialValue → Bool
  | hidden _ => true
  | _        => false

def isCommitment : CredentialValue → Bool
  | commitment .. => true
  | _             => false

def value : CredentialValue → BigNumber
  | known v | hidden v | commitment v _ => v

end CredentialValue

structure CredentialValues where
  attrsValues : BTreeMap CredentialValue

structure CredentialPrimaryPublicKey where
  n : BigNumber
  s : BigNumber
  r : HashMap BigNumber
  rctxt : BigNumber
  z : BigNumber

structure CredentialPrimaryPrivateKey where
  p : BigNumber
  q : BigNumber

-- The exponents of the public key, which the issuer uses for the correctness proof of the key.
structure CredentialPrimaryPublicKeyMetadata where
  xz : BigNumber
  xr : HashMap BigNumber

structure CredentialKeyCorrectnessProof where
  c : BigNumber
  xzCap : BigNumber
  xrCap : List (String × BigNumber)

structure CredentialRevocationPublicKey (C : Curve) where
  g : PointG1 C
  gDash : PointG2 C
  h : PointG1 C
  h0 : PointG1 C
  h1 : PointG1 C
  h2 : PointG1 C
  htilde : PointG1 C
  hCap : PointG2 C
  u : PointG2 C
  pk : PointG1 C
  y : PointG2 C

structure CredentialRevocationPrivateKey (C : Curve) where
  x : GroupOrderElement C
  sk : GroupOrderElement C

structure CredentialPublicKey (C : Curve) where
  pKey : CredentialPrimaryPublicKey
  rKey : Option (CredentialRevocationPublicKey C)

structure CredentialPrivateKey (C : Curve) where
  pKey : CredentialPrimaryPrivateKey
  rKey : Option (CredentialRevocationPrivateKey C)

abbrev Accumulator (C : Curve) := PointG2 C

structure RevocationRegistry (C : Curve) where
  accum : Accumulator C

structure RevocationKeyPublic (C : Curve) where
  z : Pair C

structure RevocationKeyPrivate (C : Curve) where
  gamma : GroupOrderElement C

structure PrimaryCredentialSignature where
  m2 : BigNumber
  a : BigNumber
  e : BigNumber
  v : BigNumber

structure WitnessSignature (C : Curve) where
  sigmaI : PointG2 C
  uI : PointG2 C
  gI : PointG1 C

structure NonRevocationCredentialSignature (C : Curve) where
  sigma : PointG1 C
  c : GroupOrderElement C
  vrPrimePrime : GroupOrderElement C
  witnessSignature : WitnessSignature C
  gI : PointG1 C
  i : UInt32
  m2 : GroupOrderElement C

structure CredentialSignature (C : Curve) where
  pCredential : PrimaryCredentialSignature
  rCredential : Option (NonRevocationCredentialSignature C)

structure SignatureCorrectnessProof where
  se : BigNumber
  c : BigNumber

structure Witness (C : Curve) where
  omega : PointG2 C

structure BlindedCredentialSecrets (C : Curve) where
  u : BigNumber
  ur : Option (PointG1 C)
  hiddenAttributes : BTreeSet String
  committedAttributes : BTreeMap BigNumber

structure PrimaryBlindedCredentialSecretsFactors where
  u : BigNumber
  vPrime : BigNumber
  hiddenAttributes : BTreeSet String
  committedAttributes : BTreeMap BigNumber

structure RevocationBlindedCredentialSecretsFactors (C : Curve) where
  ur : PointG1 C
  vrPrime : GroupOrderElement C

structure BlindedCredentialSecretsCorrectnessProof where
  c : BigNumber
  vDashCap : BigNumber
  mCaps : BTreeMap BigNumber
  rCaps : BTreeMap BigNumber

-- What the prover keeps of the blinding for the processing of the signature.
structure CredentialSecretsBlindingFactors (C : Curve) where
  vPrime : BigNumber
  vrPrime : Option (GroupOrderElement C)

inductive PredicateType
  | GE
  | LE
  | GT
  | LT
  deriving DecidableEq, Repr

structure Predicate where
  attrName : String
  pType : PredicateType
  value : Int32
  deriving Repr

namespace Predicate

-- The derived order: attribute name, then type, then value.
def key (p : Predicate) : String ×ₗ ℕ ×ₗ ℤ :=
  toLex (p.attrName, toLex (p.pType.ctorIdx, p.value.toInt))

theorem key_injective : Function.Injective key := by
  intro p₁ p₂ h
  obtain ⟨a₁, t₁, v₁⟩ := p₁
  obtain ⟨a₂, t₂, v₂⟩ := p₂
  simp only [key, EmbeddingLike.apply_eq_iff_eq, Prod.mk.injEq] at h
  obtain ⟨rfl, ht, hv⟩ := h
  obtain rfl : v₁ = v₂ := Int32.toInt_inj.mp hv
  cases t₁ <;> cases t₂ <;> first | rfl | cases ht

instance : LinearOrder Predicate :=
  LinearOrder.lift' key key_injective

-- The arithmetic is that of `i32` in a release build: a result that does not fit wraps around.
def getDelta (self : Predicate) (attrValue : Int32) : Int32 :=
  match self.pType with
  | .GE => attrValue - self.value
  | .GT => attrValue - self.value - 1
  | .LE => self.value - attrValue
  | .LT => self.value - attrValue - 1

def getDeltaPrime (self : Predicate) : BigNumber :=
  match self.pType with
  | .GE => self.value.toInt
  | .GT => (self.value + 1).toInt
  | .LE => self.value.toInt
  | .LT => (self.value - 1).toInt

def isLess (self : Predicate) : Bool :=
  match self.pType with
  | .GE | .GT => false
  | .LE | .LT => true

end Predicate

structure SubProofRequest where
  revealedAttrs : BTreeSet String
  predicates : BTreeSet Predicate

structure PrimaryEqualProof where
  revealedAttrs : BTreeMap BigNumber
  aPrime : BigNumber
  e : BigNumber
  v : BigNumber
  m : HashMap BigNumber
  m2 : BigNumber

structure PrimaryPredicateInequalityProof where
  u : HashMap BigNumber
  r : HashMap BigNumber
  mj : BigNumber
  alpha : BigNumber
  t : HashMap BigNumber
  predicate : Predicate

structure PrimaryProof where
  eqProof : PrimaryEqualProof
  neProofs : List PrimaryPredicateInequalityProof

structure NonRevocProofXList (C : Curve) where
  rho : GroupOrderElement C
  r : GroupOrderElement C
  rPrime : GroupOrderElement C
  rPrimePrime : GroupOrderElement C
  rPrimePrimePrime : GroupOrderElement C
  o : GroupOrderElement C
  oPrime : GroupOrderElement C
  m : GroupOrderElement C
  mPrime : GroupOrderElement C
  t : GroupOrderElement C
  tPrime : GroupOrderElement C
  m2 : GroupOrderElement C
  s : GroupOrderElement C
  c : GroupOrderElement C

namespace NonRevocProofXList

variable {C : Curve}

def asList (self : NonRevocProofXList C) : List (GroupOrderElement C) :=
  [self.rho, self.o, self.c, self.oPrime, self.m, self.mPrime, self.t, self.tPrime, self.m2,
    self.s, self.r, self.rPrime, self.rPrimePrime, self.rPrimePrimePrime]

-- Only lists of 14 elements are passed.
def fromList (seq : List (GroupOrderElement C)) : NonRevocProofXList C where
  rho := seq.getD 0 0
  r := seq.getD 10 0
  rPrime := seq.getD 11 0
  rPrimePrime := seq.getD 12 0
  rPrimePrimePrime := seq.getD 13 0
  o := seq.getD 1 0
  oPrime := seq.getD 3 0
  m := seq.getD 4 0
  mPrime := seq.getD 5 0
  t := seq.getD 6 0
  tPrime := seq.getD 7 0
  m2 := seq.getD 8 0
  s := seq.getD 9 0
  c := seq.getD 2 0

end NonRevocProofXList

structure NonRevocProofCList (C : Curve) where
  e : PointG1 C
  d : PointG1 C
  a : PointG1 C
  g : PointG1 C
  w : PointG2 C
  s : PointG2 C
  u : PointG2 C
  deriving DecidableEq

namespace NonRevocProofCList

def asList (self : NonRevocProofCList C) : List (List UInt8) :=
  [C.toBytes₁ self.e, C.toBytes₁ self.d, C.toBytes₁ self.a, C.toBytes₁ self.g,
    C.toBytes₂ self.w, C.toBytes₂ self.s, C.toBytes₂ self.u]

end NonRevocProofCList

@[ext]
structure NonRevocProofTauList (C : Curve) where
  t1 : PointG1 C
  t2 : PointG1 C
  t3 : Pair C
  t4 : Pair C
  t5 : PointG1 C
  t6 : PointG1 C
  t7 : Pair C
  t8 : Pair C
  deriving DecidableEq

namespace NonRevocProofTauList

def asSlice (self : NonRevocProofTauList C) : List (List UInt8) :=
  [C.toBytes₁ self.t1, C.toBytes₁ self.t2, C.toBytesT self.t3, C.toBytesT self.t4,
    C.toBytes₁ self.t5, C.toBytes₁ self.t6, C.toBytesT self.t7, C.toBytesT self.t8]

end NonRevocProofTauList

structure NonRevocProof (C : Curve) where
  xList : NonRevocProofXList C
  cList : NonRevocProofCList C

structure SubProof (C : Curve) where
  primaryProof : PrimaryProof
  nonRevocProof : Option (NonRevocProof C)

structure AggregatedProof where
  cHash : BigNumber
  cList : List (List UInt8)

structure Proof (C : Curve) where
  proofs : List (SubProof C)
  aggregatedProof : AggregatedProof

structure PrimaryEqualInitProof where
  aPrime : BigNumber
  t : BigNumber
  eTilde : BigNumber
  ePrime : BigNumber
  vTilde : BigNumber
  vPrime : BigNumber
  mTilde : HashMap BigNumber
  m2Tilde : BigNumber
  m2 : BigNumber

namespace PrimaryEqualInitProof

def asList (self : PrimaryEqualInitProof) : List (List UInt8) :=
  [self.aPrime.toBytes]

def asTauList (self : PrimaryEqualInitProof) : List (List UInt8) :=
  [self.t.toBytes]

end PrimaryEqualInitProof

structure PrimaryPredicateInequalityInitProof where
  cList : List BigNumber
  tauList : List BigNumber
  u : HashMap BigNumber
  uTilde : HashMap BigNumber
  r : HashMap BigNumber
  rTilde : HashMap BigNumber
  alphaTilde : BigNumber
  predicate : Predicate
  t : HashMap BigNumber

structure PrimaryInitProof where
  eqProof : PrimaryEqualInitProof
  neProofs : List PrimaryPredicateInequalityInitProof

namespace PrimaryInitProof

def asCList (self : PrimaryInitProof) : List (List UInt8) :=
  self.eqProof.asList ++ self.neProofs.flatMap fun ne => ne.cList.map BigNumber.toBytes

def asTauList (self : PrimaryInitProof) : List (List UInt8) :=
  self.eqProof.asTauList ++ self.neProofs.flatMap fun ne => ne.tauList.map BigNumber.toBytes

end PrimaryInitProof

structure NonRevocInitProof (C : Curve) where
  cListParams : NonRevocProofXList C
  tauListParams : NonRevocProofXList C
  cList : NonRevocProofCList C
  tauList : NonRevocProofTauList C

structure InitProof (C : Curve) where
  primaryInitProof : PrimaryInitProof
  nonRevocInitProof : Option (NonRevocInitProof C)
  credentialValues : CredentialValues
  subProofRequest : SubProofRequest
  credentialSchema : CredentialSchema
  nonCredentialSchema : NonCredentialSchema

abbrev Nonce := BigNumber

structure VerifiableCredential (C : Curve) where
  pubKey : CredentialPublicKey C
  subProofRequest : SubProofRequest
  credentialSchema : CredentialSchema
  nonCredentialSchema : NonCredentialSchema
  revKeyPub : Option (RevocationKeyPublic C)
  revReg : Option (RevocationRegistry C)

end Ursa
