import Ursa.Cl.Types

namespace Ursa

-- `cl/helpers.rs`

section Primary

variable (pPubKey : CredentialPrimaryPublicKey)

-- One round of the loop of `calcTeq`: `result * cur_r ^ cur_m` modulo `n`.
def calcTeqAttr (mTilde : HashMap BigNumber) (result : BigNumber) (k : String) :
    UrsaCryptoResult BigNumber := do
  let curR ← okOrElse (pPubKey.r.lookup k) <|
    .err .invalidStructure s!"Value by key '{k}' not found in pk.r"
  let curM ← okOrElse (mTilde.lookup k) <|
    .err .invalidStructure s!"Value by key '{k}' not found in m_tilde"
  let power ← curR.modExp curM pPubKey.n
  power.modMul result pPubKey.n

def calcTeq (env : Env) (aPrime e v : BigNumber) (mTilde : HashMap BigNumber) (m2tilde : BigNumber)
    (unrevealedAttrs : HashSet String) : UrsaCryptoResult BigNumber := do
  let result ← aPrime.modExp e pPubKey.n
  let result ← (env.hashOrder unrevealedAttrs).foldlM (calcTeqAttr pPubKey mTilde) result
  let power ← pPubKey.s.modExp v pPubKey.n
  let result ← power.modMul result pPubKey.n
  let power ← pPubKey.rctxt.modExp m2tilde pPubKey.n
  power.modMul result pPubKey.n

-- `Z ^ u_i * S ^ r_i`
def calcTneRoot (u r : HashMap BigNumber) (i : ℕ) : UrsaCryptoResult BigNumber := do
  let curU ← okOrElse (u.lookup (toString i)) <|
    .err .invalidStructure s!"Value by key '{i}' not found in u"
  let curR ← okOrElse (r.lookup (toString i)) <|
    .err .invalidStructure s!"Value by key '{i}' not found in r"
  let x ← pPubKey.z.modExp curU pPubKey.n
  let y ← pPubKey.s.modExp curR pPubKey.n
  x.modMul y pPubKey.n

-- `q * T_i ^ u_i`; the product itself is not reduced.
def calcTneProduct (u t : HashMap BigNumber) (q : BigNumber) (i : ℕ) :
    UrsaCryptoResult BigNumber := do
  let curT ← okOrElse (t.lookup (toString i)) <|
    .err .invalidStructure s!"Value by key '{i}' not found in t"
  let curU ← okOrElse (u.lookup (toString i)) <|
    .err .invalidStructure s!"Value by key '{i}' not found in u"
  let power ← curT.modExp curU pPubKey.n
  pure (power * q)

-- The exponent of `S` that goes with `Z ^ mj`; for `LE` and `LT` its sign is forced.
def deltaPredicate (delta : BigNumber) (isLess : Bool) : BigNumber :=
  if isLess then delta.setNegative true else delta

def calcTne (u r : HashMap BigNumber) (mj alpha : BigNumber) (t : HashMap BigNumber)
    (isLess : Bool) : UrsaCryptoResult (List BigNumber) := do
  let tauList ← (List.range iteration).mapM (calcTneRoot pPubKey u r)
  let delta ← okOrElse (r.lookup "DELTA") <|
    .err .invalidStructure "Value by key 'DELTA' not found in r"
  let x ← pPubKey.z.modExp mj pPubKey.n
  let y ← pPubKey.s.modExp (deltaPredicate delta isLess) pPubKey.n
  let tTau ← x.modMul y pPubKey.n
  let q ← (List.range iteration).foldlM (calcTneProduct pPubKey u t) 1
  let power ← pPubKey.s.modExp alpha pPubKey.n
  let q ← power.modMul q pPubKey.n
  pure (tauList ++ [tTau, q])

end Primary

def transformU32ToArrayOfU8 (x : UInt32) : List UInt8 :=
  [24, 16, 8, 0].map fun i : UInt32 => (x >>> i).toUInt8

-- Attributes without a blinding yet get one of `LARGE_MVECT` bits.
def getMtilde (env : Env) (unrevealedAttrs : HashSet String) (mtilde : HashMap BigNumber)
    (draws : String → BnRand largeMVect) : HashMap BigNumber :=
  (env.hashOrder unrevealedAttrs).foldl
    (fun mtilde attr => if attr ∈ mtilde then mtilde else mtilde.insert attr (draws attr).value)
    mtilde

section FourSquares

-- `(delta as f64).sqrt().floor() as usize`, exact for the numbers that fit an `i32`
def largestSquareLessThan (delta : ℕ) : ℕ :=
  Nat.sqrt delta

structure Roots where
  r0 : ℕ
  r1 : ℕ
  r2 : ℕ
  r3 : ℕ

-- The loops of `fourSquares` over `roots[2]`, `roots[1]` and `roots[0]`, downwards. The flag says
-- that the loop was left by `break 'outer`.
def fourSquaresLoop2 (d : ℕ) (roots : Roots) : ℕ → Bool × Roots
  | 0 => (false, roots)
  | k + 1 =>
    let roots := { roots with r2 := k + 1 }
    if d = roots.r0 ^ 2 + roots.r1 ^ 2 + roots.r2 ^ 2 then (true, { roots with r3 := 0 })
    else
      let r3 := largestSquareLessThan (d - roots.r0 ^ 2 - roots.r1 ^ 2 - roots.r2 ^ 2)
      let roots := { roots with r3 := r3 }
      if d = roots.r0 ^ 2 + roots.r1 ^ 2 + roots.r2 ^ 2 + roots.r3 ^ 2 then (true, roots)
      else fourSquaresLoop2 d roots k

def fourSquaresLoop1 (d : ℕ) (roots : Roots) : ℕ → Bool × Roots
  | 0 => (false, roots)
  | j + 1 =>
    let roots := { roots with r1 := j + 1 }
    if d = roots.r0 ^ 2 + roots.r1 ^ 2 then (true, { roots with r2 := 0, r3 := 0 })
    else
      let r2 := largestSquareLessThan (d - roots.r0 ^ 2 - roots.r1 ^ 2)
      match fourSquaresLoop2 d { roots with r2 := r2 } r2 with
      | (true, roots)  => (true, roots)
      | (false, roots) => fourSquaresLoop1 d roots j

def fourSquaresLoop0 (d : ℕ) (roots : Roots) : ℕ → Bool × Roots
  | 0 => (false, roots)
  | i + 1 =>
    let roots := { roots with r0 := i + 1 }
    if d = roots.r0 ^ 2 then (true, { roots with r1 := 0, r2 := 0, r3 := 0 })
    else
      let r1 := largestSquareLessThan (d - roots.r0 ^ 2)
      match fourSquaresLoop1 d { roots with r1 := r1 } r1 with
      | (true, roots)  => (true, roots)
      | (false, roots) => fourSquaresLoop0 d roots i

def fourSquares (delta : Int32) : UrsaCryptoResult (HashMap BigNumber) :=
  if delta.toInt < 0 then
    .error <| .err .invalidStructure
      s!"Cannot express a negative number as sum of four squares {delta.toInt} "
  else
    let d := delta.toInt.toNat
    let r0 := largestSquareLessThan d
    let roots := (fourSquaresLoop0 d { r0, r1 := 0, r2 := 0, r3 := 0 } r0).2
    .ok <| (((∅ : HashMap BigNumber).insert "0" roots.r0).insert "1" roots.r1).insert "2" roots.r2
      |>.insert "3" roots.r3

end FourSquares

section NonRevocation

variable {C : Curve}

def createTauListExpectedValues (rPubKey : CredentialRevocationPublicKey C)
    (revReg : RevocationRegistry C) (revAccPubKey : RevocationKeyPublic C)
    (proofC : NonRevocProofCList C) : NonRevocProofTauList C where
  t1 := proofC.e
  t2 := 0
  t3 := C.pair (rPubKey.h0 + proofC.g) rPubKey.hCap + -C.pair proofC.a rPubKey.y
  t4 := C.pair proofC.g revReg.accum + -(C.pair rPubKey.g proofC.w + revAccPubKey.z)
  t5 := proofC.d
  t6 := 0
  t7 := C.pair (rPubKey.pk + proofC.g) proofC.s + -C.pair rPubKey.g rPubKey.gDash
  t8 := C.pair proofC.g rPubKey.u + -C.pair rPubKey.g proofC.u

-- The infinity that `t2` and `t6` may come to is replaced by a fresh one, which is the same point.
def createTauListValues (rPubKey : CredentialRevocationPublicKey C)
    (revReg : RevocationRegistry C) (params : NonRevocProofXList C)
    (proofC : NonRevocProofCList C) : NonRevocProofTauList C where
  t1 := params.rho • rPubKey.h + params.o • rPubKey.htilde
  t2 := params.c • proofC.e + -params.m • rPubKey.h + -params.t • rPubKey.htilde
  t3 := params.c • C.pair proofC.a rPubKey.hCap + params.r • C.pair rPubKey.htilde rPubKey.hCap +
    -(params.rho • C.pair rPubKey.htilde rPubKey.y + params.m • C.pair rPubKey.htilde rPubKey.hCap +
      params.m2 • C.pair rPubKey.h1 rPubKey.hCap + params.s • C.pair rPubKey.h2 rPubKey.hCap)
  t4 := params.r • C.pair rPubKey.htilde revReg.accum +
    params.rPrime • C.pair (-rPubKey.g) rPubKey.hCap
  t5 := params.r • rPubKey.g + params.oPrime • rPubKey.htilde
  t6 := params.rPrimePrime • proofC.d + -params.mPrime • rPubKey.g +
    -params.tPrime • rPubKey.htilde
  t7 := params.rPrimePrime • C.pair (rPubKey.pk + proofC.g) rPubKey.hCap +
    -params.mPrime • C.pair rPubKey.htilde rPubKey.hCap +
    params.r • C.pair rPubKey.htilde proofC.s
  t8 := params.r • C.pair rPubKey.htilde rPubKey.u +
    params.rPrimePrimePrime • C.pair (-rPubKey.g) rPubKey.hCap

end NonRevocation
end Ursa
