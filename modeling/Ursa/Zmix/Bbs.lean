import Ursa.Zmix.PoKVC

namespace Ursa

-- `signatures/bbs`: BBS+ signatures, and proofs of knowledge of one.

inductive BBSErrorKind
  | keyGenError
  | signingErrorMessageCountMismatch (expected found : ℕ)
  | signatureIncorrectSize (size : ℕ)
  | signatureValueIncorrectSize
  | malformedPublicKey
  | poKVCError (msg : String)
  | generalError (msg : String)
  deriving DecidableEq, Repr

-- The text lists the causes of the error, and those of `pok_vc` have none.
def BBSErrorKind.ofPoKVC (_ : PoKVCErrorKind) : BBSErrorKind :=
  .poKVCError "PoKVCError: "

abbrev BBSResult := ZmixResult BBSErrorKind

namespace Bbs

open ZmixResult

variable {C : Curve}

abbrev SecretKey (C : Curve) := FieldElement C

structure PublicKey (C : Curve) where
  h0 : PointG1 C
  h : List (PointG1 C)
  w : PointG2 C

structure Signature (C : Curve) where
  a : PointG1 C
  e : FieldElement C
  s : FieldElement C

namespace PublicKey

variable (self : PublicKey C)

def messageCount : ℕ :=
  self.h.length

def validate : BBSResult Unit :=
  if self.h0 = 0 ∨ self.w = 0 ∨ self.h.any (· = 0) then fail .malformedPublicKey else pure ()

end PublicKey

-- `secret` and the points are drawn.
def generate (gen : Generators C) (messageCount : ℕ) (secret : FieldElement C)
    (h : ℕ → PointG1 C) (h0 : PointG1 C) : BBSResult (PublicKey C × SecretKey C) :=
  if messageCount = 0 then fail .keyGenError
  else
    let w := secret • gen.g2
    pure ({ w, h0, h := (List.range messageCount).map h }, secret)

section ComputeB

variable (gen : Generators C) (startingValue : PointG1 C) (publicKey : PublicKey C)
variable (messages : List (FieldElement C)) (blindingFactor : FieldElement C) (offset : ℕ)

def prepVecForB : BBSResult (List (PointG1 C) × List (FieldElement C)) := do
  let bases ← (List.range messages.length).mapM fun i => nth publicKey.h (offset + i)
  pure ([gen.g1, publicKey.h0] ++ bases, [1, blindingFactor] ++ messages)

def computeBConstTime : BBSResult (PointG1 C) := do
  let (points, scalars) ← prepVecForB gen publicKey messages blindingFactor offset
  let product ← unwrap <| multiScalarMul points scalars
  pure (startingValue + product)

def computeBVarTime : BBSResult (PointG1 C) :=
  computeBConstTime gen startingValue publicKey messages blindingFactor offset

end ComputeB

namespace Signature

-- `e` and `s` are drawn.
def newWithCommittedMessages (gen : Generators C) (commitment : PointG1 C)
    (messages : List (FieldElement C)) (signkey : SecretKey C) (verkey : PublicKey C)
    (e s : FieldElement C) : BBSResult (Signature C) :=
  if verkey.messageCount < messages.length then
    fail <| .signingErrorMessageCountMismatch verkey.messageCount messages.length
  else do
    let offset ← usizeSub verkey.messageCount messages.length
    let b ← computeBConstTime gen commitment verkey messages s offset
    let exp := (signkey + e)⁻¹
    let a := exp • b
    pure { a, e, s }

def new (gen : Generators C) (messages : List (FieldElement C)) (signkey : SecretKey C)
    (verkey : PublicKey C) (e s : FieldElement C) : BBSResult (Signature C) :=
  if messages.isEmpty then
    fail <| .signingErrorMessageCountMismatch verkey.messageCount messages.length
  else newWithCommittedMessages gen 0 messages signkey verkey e s

def getUnblindedSignature (self : Signature C) (blinding : FieldElement C) : Signature C where
  a := self.a
  s := self.s + blinding
  e := self.e

def verify (gen : Generators C) (self : Signature C) (messages : List (FieldElement C))
    (verkey : PublicKey C) : BBSResult Bool :=
  if messages.length ≠ verkey.messageCount then
    fail <| .signingErrorMessageCountMismatch verkey.messageCount messages.length
  else do
    let b ← computeBVarTime gen 0 verkey messages self.s 0
    let a := self.e • gen.g2 + verkey.w
    pure <| GT.isOne <| GT.ate2Pairing self.a a (-b) gen.g2

end Signature

structure PoKOfSignature (C : Curve) where
  aPrime : PointG1 C
  aBar : PointG1 C
  d : PointG1 C
  pokVc1 : ProverCommitted C (PointG1 C)
  secrets1 : List (FieldElement C)
  pokVc2 : ProverCommitted C (PointG1 C)
  secrets2 : List (FieldElement C)

structure PoKOfSignatureProof (C : Curve) where
  aPrime : PointG1 C
  aBar : PointG1 C
  d : PointG1 C
  proofVc1 : ProofVC C (PointG1 C)
  proofVc2 : ProofVC C (PointG1 C)

namespace PoKOfSignature

-- The draws of `init`: the two exponents that randomise the signature, and the blindings of the
-- bases of the two commitments. The blinding of a hidden message is drawn if none is given.
structure Random (C : Curve) where
  r1 : FieldElement C
  r2 : FieldElement C
  aPrime : FieldElement C
  h0₁ : FieldElement C
  d : FieldElement C
  h0₂ : FieldElement C
  message : ℕ → FieldElement C

-- The state of the loop over the hidden messages.
structure Hidden (C : Curve) where
  committing : ProverCommitting C (PointG1 C)
  secrets : List (FieldElement C)
  blindings : List (Option (FieldElement C))

def Hidden.commit (vk : PublicKey C) (messages : List (FieldElement C))
    (random : ℕ → FieldElement C) (self : Hidden C) (i : ℕ) : BBSResult (Hidden C) := do
  let base ← nth vk.h i
  let (blinding, blindings) ← removeFirst self.blindings
  let committing := (self.committing.commit base blinding (random i)).1
  let message ← nth messages i
  pure { committing, secrets := self.secrets ++ [message], blindings }

def init (order : HashOrder ℕ) (gen : Generators C) (signature : Signature C) (vk : PublicKey C)
    (messages : List (FieldElement C)) (blindings : Option (List (FieldElement C)))
    (revealedMsgIndices : IndexSet) (random : Random C) : BBSResult (PoKOfSignature C) :=
  if messages.length ≠ vk.messageCount then
    fail <| .signingErrorMessageCountMismatch vk.messageCount messages.length
  else do
    checkIndices .generalError (order.iter revealedMsgIndices) messages.length
    let blindings ← hiddenBlindings
      (fun given hidden => .generalError s!"Blindings {given} != Hidden messages {hidden}")
      messages.length revealedMsgIndices.card blindings
    let r1 := random.r1
    let r2 := random.r2
    let b ← computeBConstTime gen 0 vk messages signature.s 0
    let aPrime := r1 • signature.a
    let aBar := r1 • b - signature.e • aPrime
    let d := r1 • b + -r2 • vk.h0
    let r3 := r1⁻¹
    let sPrime := signature.s - r2 * r3
    let committing1 := (ProverCommitting.new.commit aPrime none random.aPrime).1
    let committing1 := (committing1.commit vk.h0 none random.h0₁).1
    let secrets1 := [-signature.e, r2]
    let pokVc1 ← committing1.finish
    let committing2 := (ProverCommitting.new.commit d none random.d).1
    let committing2 := (committing2.commit vk.h0 none random.h0₂).1
    let secrets2 := [-r3, sPrime]
    let hidden ← (hiddenIndices vk.messageCount revealedMsgIndices).foldlM
      (Hidden.commit vk messages random.message)
      { committing := committing2, secrets := secrets2, blindings }
    let pokVc2 ← hidden.committing.finish
    pure { aPrime, aBar, d, pokVc1, secrets1, pokVc2, secrets2 := hidden.secrets }

def genProof (self : PoKOfSignature C) (challengeHash : FieldElement C) :
    BBSResult (PoKOfSignatureProof C) := do
  let proofVc1 ← (self.pokVc1.genProof challengeHash self.secrets1).mapKind .ofPoKVC
  let proofVc2 ← (self.pokVc2.genProof challengeHash self.secrets2).mapKind .ofPoKVC
  pure { aPrime := self.aPrime, aBar := self.aBar, d := self.d, proofVc1, proofVc2 }

end PoKOfSignature

def PoKOfSignatureProof.verify (order : HashOrder ℕ) (gen : Generators C)
    (self : PoKOfSignatureProof C) (vk : PublicKey C) (revealedMsgs : IndexMap (FieldElement C))
    (challenge : FieldElement C) : BBSResult Bool := do
  vk.validate
  checkIndices .generalError (order.iter revealedMsgs.keys) vk.messageCount
  if self.aPrime = 0 then
    pure false
  else if !GT.isOne (GT.ate2Pairing self.aPrime vk.w (-self.aBar) gen.g2) then
    pure false
  else do
    let bases := [self.aPrime, vk.h0]
    let aBarD := self.aBar - self.d
    let valid ← (self.proofVc1.verify bases aBarD challenge).mapKind .ofPoKVC
    if !valid then
      pure false
    else do
      -- The loop over all indices, once for those that are hidden and once for the others.
      let basesPokVc2 ← (hiddenIndices vk.messageCount revealedMsgs.keys).mapM (nth vk.h)
      let basesPokVc2 := [self.d, vk.h0] ++ basesPokVc2
      let disclosed := revealedIndices vk.messageCount revealedMsgs.keys
      let basesDisclosed ← disclosed.mapM (nth vk.h)
      let exponents ← disclosed.mapM fun i => unwrap (revealedMsgs.lookup i)
      let product ← unwrap <| multiScalarMul ([gen.g1] ++ basesDisclosed) ([1] ++ exponents)
      let pr := -product
      (self.proofVc2.verify basesPokVc2 pr challenge).mapKind .ofPoKVC

end Bbs
end Ursa
