import Ursa.Zmix.PoKVC

namespace Ursa

-- `signatures/ps`: Pointcheval-Sanders signatures, and proofs of knowledge of one. With the feature
-- `PS_Signature_G1` the signatures are in the first group of the curve and the other group is the
-- second one. The feature `PS_Signature_G2` is the same code over the flipped curve.
namespace Ps

inductive PSErrorKind
  | invalidVerkey (y yTilde : ℕ)
  | unsupportedNoOfMessages (expected given : ℕ)
  | unequalNoOfBasesExponents (bases exponents : ℕ)
  | poKVCError (msg : String)
  | generalError (msg : String)
  deriving DecidableEq, Repr

-- The text lists the causes of the error, and those of `pok_vc` have none.
def PSErrorKind.ofPoKVC (_ : PoKVCErrorKind) : PSErrorKind :=
  .poKVCError "PoKVCError: "

abbrev PSResult := ZmixResult PSErrorKind

abbrev SignatureGroup (C : Curve) := PointG1 C

abbrev OtherGroup (C : Curve) := PointG2 C

open ZmixResult

variable {C : Curve}

def ate2Pairing (g1 : SignatureGroup C) (g2 : OtherGroup C) (h1 : SignatureGroup C)
    (h2 : OtherGroup C) : Pair C :=
  GT.ate2Pairing g1 g2 h1 h2

-- Over the flipped curve this is `ate_2_pairing` of the feature `PS_Signature_G2`.
theorem ate2Pairing_flip (g1 h1 : PointG2 C) (g2 h2 : PointG1 C) :
    ate2Pairing (C := C.flip) g1 g2 h1 h2 = GT.ate2Pairing g2 g1 h2 h1 :=
  rfl

structure Sigkey (C : Curve) where
  x : SignatureGroup C

structure Verkey (C : Curve) where
  g : SignatureGroup C
  gTilde : OtherGroup C
  xTilde : OtherGroup C
  y : List (SignatureGroup C)
  yTilde : List (OtherGroup C)

def Verkey.validate (self : Verkey C) : PSResult Unit :=
  if self.y.length ≠ self.yTilde.length then
    fail <| .invalidVerkey self.y.length self.yTilde.length
  else pure ()

-- The two `from_msg_hash` are arbitrary functions; `x` and the `y` are drawn.
def keygen (fromMsgHash₁ : List UInt8 → SignatureGroup C) (fromMsgHash₂ : List UInt8 → OtherGroup C)
    (countMessages : ℕ) (label : List UInt8) (x : FieldElement C) (y : ℕ → FieldElement C) :
    Verkey C × Sigkey C :=
  let g := fromMsgHash₁ <| label ++ " : g".toUTF8.toList
  let gTilde := fromMsgHash₂ <| label ++ " : g_tilde".toUTF8.toList
  ({ g
     gTilde
     xTilde := x • gTilde
     y := (List.range countMessages).map fun i => y i • g
     yTilde := (List.range countMessages).map fun i => y i • gTilde },
    { x := x • g })

structure Signature (C : Curve) where
  sigma1 : SignatureGroup C
  sigma2 : SignatureGroup C

namespace Signature

def checkVerkeyAndMessagesCompat (messages : List (FieldElement C)) (verkey : Verkey C) :
    PSResult Unit := do
  verkey.validate
  if messages.length ≠ verkey.y.length then
    fail <| .unsupportedNoOfMessages messages.length verkey.y.length
  else pure ()

-- `u` is drawn.
def sign (messages : List (FieldElement C)) (sigkey : Sigkey C) (verkey : Verkey C)
    (commitment : Option (SignatureGroup C)) (u : FieldElement C) : PSResult (Signature C) := do
  let sigma1 := u • verkey.g
  let offset ← usizeSub verkey.y.length messages.length
  let points ← (List.range messages.length).mapM fun i => nth verkey.y (offset + i)
  let product ← unwrap <| multiScalarMul points messages
  let sigma2 := sigkey.x + product
  let sigma2 := match commitment with
    | some commitment => sigma2 + commitment
    | none            => sigma2
  let sigma2 := u • sigma2
  pure { sigma1, sigma2 }

def new (messages : List (FieldElement C)) (sigkey : Sigkey C) (verkey : Verkey C)
    (u : FieldElement C) : PSResult (Signature C) := do
  checkVerkeyAndMessagesCompat messages verkey
  sign messages sigkey verkey none u

def newWithCommittedMessages (commitment : SignatureGroup C) (messages : List (FieldElement C))
    (sigkey : Sigkey C) (verkey : Verkey C) (u : FieldElement C) : PSResult (Signature C) := do
  verkey.validate
  if verkey.y.length ≤ messages.length then
    fail <| .unsupportedNoOfMessages messages.length verkey.y.length
  else sign messages sigkey verkey (some commitment) u

def verify (self : Signature C) (messages : List (FieldElement C)) (verkey : Verkey C) :
    PSResult Bool :=
  if self.sigma1 = 0 ∨ self.sigma2 = 0 then pure false
  else do
    checkVerkeyAndMessagesCompat messages verkey
    let points ← (List.range messages.length).mapM (nth verkey.yTilde)
    let product ← unwrap <| multiScalarMul ([verkey.xTilde] ++ points) ([1] ++ messages)
    pure <| GT.isOne <| ate2Pairing self.sigma1 product (-self.sigma2) verkey.gTilde

def getUnblindedSignature (self : Signature C) (blinding : FieldElement C) : Signature C where
  sigma1 := self.sigma1
  sigma2 := self.sigma2 - blinding • self.sigma1

end Signature

structure PoKOfSignature (C : Curve) where
  secrets : List (FieldElement C)
  sig : Signature C
  j : OtherGroup C
  pokVc : ProverCommitted C (OtherGroup C)

structure PoKOfSignatureProof (C : Curve) where
  sig : Signature C
  j : OtherGroup C
  proofVc : ProofVC C (OtherGroup C)

namespace PoKOfSignature

-- The draws of `init`: those that randomise the signature, and the blindings by the position of
-- their base.
structure Random (C : Curve) where
  r : FieldElement C
  t : FieldElement C
  blinding : ℕ → FieldElement C

-- The loop over the bases, with the position of the base, and the blindings that are left.
def commit (random : ℕ → FieldElement C)
    (state : ProverCommitting C (OtherGroup C) × List (Option (FieldElement C)))
    (base : OtherGroup C × ℕ) :
    PSResult (ProverCommitting C (OtherGroup C) × List (Option (FieldElement C))) := do
  let (blinding, blindings) ← removeFirst state.2
  pure ((state.1.commit base.1 blinding (random base.2)).1, blindings)

def init (order : HashOrder ℕ) (sig : Signature C) (vk : Verkey C)
    (messages : List (FieldElement C)) (blindings : Option (List (FieldElement C)))
    (revealedMsgIndices : IndexSet) (random : Random C) : PSResult (PoKOfSignature C) := do
  checkIndices .generalError (order.iter revealedMsgIndices) messages.length
  Signature.checkVerkeyAndMessagesCompat messages vk
  let blindings ← hiddenBlindings
    (fun given hidden => .generalError
      s!"No of blindings {given} not equal to number of hidden messages {hidden}")
    messages.length revealedMsgIndices.card blindings
  let r := random.r
  let t := random.t
  let sigmaPrime1 := r • sig.sigma1
  let sigmaPrime2 := r • (sig.sigma2 + t • sig.sigma1)
  let _hiddenMsgCount ← usizeSub vk.yTilde.length revealedMsgIndices.card
  let hidden := hiddenIndices vk.yTilde.length revealedMsgIndices
  let bases ← hidden.mapM (nth vk.yTilde)
  let exponents ← hidden.mapM (nth messages)
  let bases := [vk.gTilde] ++ bases
  let exponents := [t] ++ exponents
  let j ← unwrap <| multiScalarMul bases exponents
  let blindings := none :: blindings
  let (committing, _) ← bases.zipIdx.foldlM (commit random.blinding)
    (ProverCommitting.new, blindings)
  let committed ← committing.finish
  let sigmaPrime := { sigma1 := sigmaPrime1, sigma2 := sigmaPrime2 }
  pure { secrets := exponents, sig := sigmaPrime, j, pokVc := committed }

def genProof (self : PoKOfSignature C) (challenge : FieldElement C) :
    PSResult (PoKOfSignatureProof C) := do
  let proofVc ← (self.pokVc.genProof challenge self.secrets).mapKind .ofPoKVC
  pure { sig := self.sig, j := self.j, proofVc }

end PoKOfSignature

namespace PoKOfSignatureProof

-- The branch of `verify` that adds the revealed messages to `J`.
def addRevealed (order : HashOrder ℕ) (self : PoKOfSignatureProof C) (vk : Verkey C)
    (revealedMsgs : IndexMap (FieldElement C)) : PSResult (OtherGroup C) :=
  if revealedMsgs.keys = ∅ then pure self.j
  else do
    let b ← (order.iter revealedMsgs.keys).mapM (nth vk.yTilde)
    let e ← (order.iter revealedMsgs.keys).mapM fun i => unwrap (revealedMsgs.lookup i)
    let product ← unwrap <| multiScalarMul b e
    pure (self.j + product)

def verify (order : HashOrder ℕ) (self : PoKOfSignatureProof C) (vk : Verkey C)
    (revealedMsgs : IndexMap (FieldElement C)) (challenge : FieldElement C) : PSResult Bool := do
  vk.validate
  if self.sig.sigma1 = 0 ∨ self.sig.sigma2 = 0 then
    pure false
  else do
    let _hiddenMsgCount ← usizeSub vk.yTilde.length revealedMsgs.keys.card
    let hidden ← (hiddenIndices vk.yTilde.length revealedMsgs.keys).mapM (nth vk.yTilde)
    let bases := [vk.gTilde] ++ hidden
    let valid ← (self.proofVc.verify bases self.j challenge).mapKind .ofPoKVC
    if !valid then
      pure false
    else do
      let j ← self.addRevealed order vk revealedMsgs
      pure <| GT.isOne <| ate2Pairing self.sig.sigma1 (j + vk.xTilde) (-self.sig.sigma2) vk.gTilde

end PoKOfSignatureProof
end Ps
end Ursa
