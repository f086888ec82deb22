import Ursa.Cl.Issuer

namespace Ursa

-- `libzmix`, `verifiable_encryption/cs_verifiable_encryption.rs`: Camenisch-Shoup encryption.

open BigNumber UrsaCryptoResult
open Issuer (SafePrime bnRandRange)

-- The `Debug` output of a number in the texts of errors.
def BigNumber.debug (self : BigNumber) : String :=
  s!"BigNumber \x7b openssl_bn: {self} \x7d"

structure PaillierGroup where
  g : BigNumber
  h : BigNumber
  nBy4 : BigNumber
  modulus : BigNumber
  deriving DecidableEq

structure CSEncPrikey where
  x1 : List BigNumber
  x2 : BigNumber
  x3 : BigNumber
  deriving DecidableEq

structure CSEncPubkey where
  n : BigNumber
  twoInvTimes2 : BigNumber
  paillierGroup : PaillierGroup
  y1 : List BigNumber
  y2 : BigNumber
  y3 : BigNumber
  deriving DecidableEq

structure CSCiphertext where
  u : BigNumber
  e : List BigNumber
  v : BigNumber
  deriving DecidableEq

structure CSKeypair where
  priKey : CSEncPrikey
  pubKey : CSEncPubkey
  deriving DecidableEq

namespace PaillierGroup

-- `gPrime` is drawn.
def new (n : BigNumber) (gPrime : ℕ) : UrsaCryptoResult PaillierGroup := do
  let modulus := n.sqr
  let nMul2 := n.lshift1
  let gPrime ← bnRandRange modulus gPrime
  let g ← gPrime.modExp nMul2 modulus
  pure { g, h := n.increment, nBy4 := n.rshift 2, modulus }

variable (self : PaillierGroup)

def exponentiate (base exp : BigNumber) : UrsaCryptoResult BigNumber :=
  base.modExp exp self.modulus

def exponentiateG (exp : BigNumber) : UrsaCryptoResult BigNumber :=
  self.exponentiate self.g exp

def exponentiateH (exp : BigNumber) : UrsaCryptoResult BigNumber :=
  self.exponentiate self.h exp

def sqr (base : BigNumber) : UrsaCryptoResult BigNumber :=
  base.sqr.modulus self.modulus

def randForEnc (draw : ℕ) : UrsaCryptoResult BigNumber :=
  bnRandRange self.nBy4 draw

def abs (a : BigNumber) : UrsaCryptoResult BigNumber := do
  let a ← a.modulus self.modulus
  let modulusBy2 := self.modulus.rshift 1
  if modulusBy2 < a then .ok (self.modulus - a) else .ok a

end PaillierGroup

-- The draws of `CSKeypair::new` after those of the two primes.
structure CSKeyDraws where
  gPrime : ℕ
  x1 : ℕ → ℕ
  x2 : ℕ
  x3 : ℕ

namespace CSKeypair

-- `CSKeypair::new` once `n` is there.
def ofModulus (n : BigNumber) (numMessages : ℕ) (draws : CSKeyDraws) :
    UrsaCryptoResult CSKeypair := do
  let twoInv ← BigNumber.inverse 2 n
  let twoInvTimes2 := twoInv.lshift1
  let paillierGroup ← PaillierGroup.new n draws.gPrime
  let nSqrBy4 := paillierGroup.modulus.rshift 2
  let xy1 ← (List.range numMessages).mapM fun i => do
    let x ← bnRandRange nSqrBy4 (draws.x1 i)
    let y ← paillierGroup.exponentiateG x
    pure (x, y)
  let x2 ← bnRandRange nSqrBy4 draws.x2
  let x3 ← bnRandRange nSqrBy4 draws.x3
  let y2 ← paillierGroup.exponentiateG x2
  let y3 ← paillierGroup.exponentiateG x3
  pure
    { priKey := { x1 := xy1.map Prod.fst, x2, x3 }
      pubKey := { n, twoInvTimes2, paillierGroup, y1 := xy1.map Prod.snd, y2, y3 } }

def new (numMessages : ℕ) (pSafe qSafe : SafePrime) (draws : CSKeyDraws) :
    UrsaCryptoResult CSKeypair := do
  if numMessages < 1 then
    .error <| .err .invalidStructure "number of messages should be greater than 0"
  let n : BigNumber := pSafe.value * qSafe.value
  ofModulus n numMessages draws

end CSKeypair

namespace VerifiableEncryption

variable (env : Env)

def hash (u : BigNumber) (e : List BigNumber) (label : List UInt8) : BigNumber :=
  getHashAsInt env <| u.toBytes :: e.map toBytes ++ [label]

def computeU (randomValue : BigNumber) (pubKey : CSEncPubkey) : UrsaCryptoResult BigNumber :=
  pubKey.paillierGroup.exponentiateG randomValue

-- One round of the loop of `compute_e`.
def computeEntry (messages : List BigNumber) (randomValue : BigNumber) (pubKey : CSEncPubkey)
    (i : ℕ) : UrsaCryptoResult BigNumber := do
  let y1 ← index pubKey.y1 i
  let y ← pubKey.paillierGroup.exponentiate y1 randomValue
  let message ← index messages i
  let hM ← pubKey.paillierGroup.exponentiateH message
  y.modMul hM pubKey.paillierGroup.modulus

def computeE (messages : List BigNumber) (randomValue : BigNumber) (pubKey : CSEncPubkey) :
    UrsaCryptoResult (List BigNumber) :=
  (List.range messages.length).mapM (computeEntry messages randomValue pubKey)

def computeV (randomValue hash : BigNumber) (pubKey : CSEncPubkey) (takeAbs : Bool) :
    UrsaCryptoResult BigNumber := do
  let y3Hs ← pubKey.paillierGroup.exponentiate pubKey.y3 hash
  let y2Y3Hs ← pubKey.y2.modMul y3Hs pubKey.paillierGroup.modulus
  let y2Y3HsR ← pubKey.paillierGroup.exponentiate y2Y3Hs randomValue
  if takeAbs then pubKey.paillierGroup.abs y2Y3HsR else .ok y2Y3HsR

def encryptUsingRandomValue (randomValue : BigNumber) (messages : List BigNumber)
    (label : List UInt8) (pubKey : CSEncPubkey) : UrsaCryptoResult CSCiphertext := do
  let u ← computeU randomValue pubKey
  let e ← computeE messages randomValue pubKey
  let hash := hash env u e label
  let v ← computeV randomValue hash pubKey true
  pure { u, e, v }

def ciphertextTValues (randomValue : BigNumber) (messages : List BigNumber) (hash : BigNumber)
    (pubKey : CSEncPubkey) : UrsaCryptoResult CSCiphertext := do
  let messages := messages.map lshift1
  let randomValue := randomValue.lshift1
  let u ← computeU randomValue pubKey
  let e ← computeE messages randomValue pubKey
  let v ← computeV randomValue hash pubKey false
  pure { u, e, v }

-- The text of three of the length checks.
def tooManyMessages (messages supported : ℕ) : Failure :=
  .err .invalidStructure
    s!"number of messages {messages} is more than supported by public key {supported}"

-- One round of the loop of `decrypt`.
def decryptEntry (ciphertext : CSCiphertext) (pubKey : CSEncPubkey) (priKey : CSEncPrikey)
    (i : ℕ) : UrsaCryptoResult BigNumber := do
  let paillierGroup := pubKey.paillierGroup
  let x1 ← index priKey.x1 i
  let uX1 ← paillierGroup.exponentiate ciphertext.u x1
  let uX1Inv ← uX1.inverse paillierGroup.modulus
  let e ← index ciphertext.e i
  let eUX1Inv ← e.modMul uX1Inv paillierGroup.modulus
  let mHat ← paillierGroup.exponentiate eUX1Inv pubKey.twoInvTimes2
  if (← mHat.modulus pubKey.n) = 1 then do
    let m ← mHat.modulus paillierGroup.modulus
    -- `sub_word(1)`
    let m := m - 1
    m.div pubKey.n
  else .error <| .err .invalidStructure s!"Decryption failed for message {i + 1}"

def decrypt (label : List UInt8) (ciphertext : CSCiphertext) (pubKey : CSEncPubkey)
    (priKey : CSEncPrikey) : UrsaCryptoResult (List BigNumber) := do
  if priKey.x1.length < ciphertext.e.length then
    .error <| tooManyMessages ciphertext.e.length priKey.x1.length
  let paillierGroup := pubKey.paillierGroup
  let abs ← paillierGroup.abs ciphertext.v
  if ciphertext.v ≠ abs then
    .error <| .err .invalidStructure s!"absolute check failed for v {ciphertext.v.debug}"
  let hs := hash env ciphertext.u ciphertext.e label
  let hsX3 := hs * priKey.x3
  let hsX3X2Times2 := BigNumber.lshift1 (hsX3 + priKey.x2)
  let uSqr ← paillierGroup.exponentiate ciphertext.u hsX3X2Times2
  let vSqr ← paillierGroup.sqr ciphertext.v
  if vSqr ≠ uSqr then
    .error <| .err .invalidStructure s!"u^2 != v^2, {uSqr.debug} != {vSqr.debug}"
  (List.range ciphertext.e.length).mapM (decryptEntry ciphertext pubKey priKey)

def encrypt (messages : List BigNumber) (label : List UInt8) (pubKey : CSEncPubkey) (draw : ℕ) :
    UrsaCryptoResult CSCiphertext := do
  if pubKey.y1.length < messages.length then
    .error <| tooManyMessages messages.length pubKey.y1.length
  let r ← pubKey.paillierGroup.randForEnc draw
  encryptUsingRandomValue env r messages label pubKey

def encryptAndProvePhase1 (messages blindings : List BigNumber) (label : List UInt8)
    (pubKey : CSEncPubkey) (draw drawTilde : ℕ) :
    UrsaCryptoResult (CSCiphertext × CSCiphertext × BigNumber × BigNumber) := do
  if messages.length ≠ blindings.length then
    .error <| .err .invalidStructure <|
      s!"number of messages {messages.length} is not equal to " ++
        s!"the number of blindings {blindings.length}"
  if pubKey.y1.length < messages.length then
    .error <| tooManyMessages messages.length pubKey.y1.length
  let r ← pubKey.paillierGroup.randForEnc draw
  let rTilde ← pubKey.paillierGroup.randForEnc drawTilde
  let ciphertext ← encryptUsingRandomValue env r messages label pubKey
  let hash := hash env ciphertext.u ciphertext.e label
  let tValues ← ciphertextTValues rTilde blindings hash pubKey
  pure (ciphertext, tValues, r, rTilde)

def encryptAndProvePhase2 (r rTilde challenge : BigNumber) (pubKey : CSEncPubkey) :
    UrsaCryptoResult BigNumber := do
  let product ← r.modMul challenge pubKey.paillierGroup.modulus
  pure (rTilde - product)

-- One round of the loop of `reconstruct_blindings_ciphertext`. `challenge` and `rHat` are doubled.
def reconstructEntry (ciphertext : CSCiphertext) (messageSValues : List BigNumber)
    (rHat challenge : BigNumber) (pubKey : CSEncPubkey) (i : ℕ) : UrsaCryptoResult BigNumber := do
  let paillierGroup := pubKey.paillierGroup
  let e ← index ciphertext.e i
  let eC ← paillierGroup.exponentiate e challenge
  let y1 ← index pubKey.y1 i
  let yRHat ← paillierGroup.exponentiate y1 rHat
  let messageSValue ← index messageSValues i
  let hMHat ← paillierGroup.exponentiateH messageSValue.lshift1
  let product ← eC.modMul yRHat paillierGroup.modulus
  product.modMul hMHat paillierGroup.modulus

def reconstructBlindingsCiphertext (ciphertext : CSCiphertext) (messageSValues : List BigNumber)
    (rHat challenge : BigNumber) (label : List UInt8) (pubKey : CSEncPubkey) :
    UrsaCryptoResult CSCiphertext := do
  if pubKey.y1.length < messageSValues.length then
    .error <| tooManyMessages messageSValues.length pubKey.y1.length
  let challenge := challenge.lshift1
  let rHat := rHat.lshift1
  let paillierGroup := pubKey.paillierGroup
  let uC ← paillierGroup.exponentiate ciphertext.u challenge
  let gRHat ← paillierGroup.exponentiateG rHat
  let uBlinded ← uC.modMul gRHat paillierGroup.modulus
  let eBlinded ← (List.range messageSValues.length).mapM
    (reconstructEntry ciphertext messageSValues rHat challenge pubKey)
  let vC ← paillierGroup.exponentiate ciphertext.v challenge
  let y3Hs ← paillierGroup.exponentiate pubKey.y3 (hash env ciphertext.u ciphertext.e label)
  let y2Y3Hs ← pubKey.y2.modMul y3Hs paillierGroup.modulus
  let y2Y3HsRHat ← paillierGroup.exponentiate y2Y3Hs rHat
  let vBlinded ← vC.modMul y2Y3HsRHat paillierGroup.modulus
  pure { u := uBlinded, e := eBlinded, v := vBlinded }

end VerifiableEncryption
end Ursa
