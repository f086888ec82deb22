import Ursa.Zmix.Ps

namespace Ursa

-- Group signatures: the keys are those of `signatures/ps/keys.rs`, the protocol is that of
-- `tests/scenario.rs`. A user joins with a secret that the group manager signs unseen, signs in the
-- name of the group, and is named by the manager afterwards.

namespace Ps

structure Gmsk (C : Curve) where
  x : FieldElement C
  y : FieldElement C

structure Gpk (C : Curve) where
  g : SignatureGroup C
  gTilde : OtherGroup C
  xTilde : OtherGroup C
  yTilde : OtherGroup C

-- `x` and `y` are drawn; the number of messages is not looked at.
def forGSetup {C : Curve} (fromMsgHash₁ : List UInt8 → SignatureGroup C)
    (fromMsgHash₂ : List UInt8 → OtherGroup C) (_countMessages : ℕ) (label : List UInt8)
    (x y : FieldElement C) : Gpk C × Gmsk C :=
  let g := fromMsgHash₁ <| label ++ " : g".toUTF8.toList
  let gTilde := fromMsgHash₂ <| label ++ " : g_tilde".toUTF8.toList
  let xTilde := x • gTilde
  let yTilde := y • gTilde
  ({ g, gTilde, xTilde, yTilde }, { x, y })

end Ps

namespace Scenario

open Ps ZmixResult

-- `u64::to_be_bytes`
def u64ToBeBytes (n : UInt64) : List UInt8 :=
  (List.range 8).map fun i => (n >>> UInt64.ofNat (8 * (7 - i))).toUInt8

-- What is taken from elsewhere: the hashes of `amcl_wrapper`, and `DefaultHasher` with its state,
-- which is fed with a point or with the four parts of a group signature and then finished.
structure Env (C : Curve) where
  fromMsgHash₁ : List UInt8 → SignatureGroup C
  fromMsgHash₂ : List UInt8 → OtherGroup C
  fromMsgHash : List UInt8 → FieldElement C
  DefaultHasher : Type
  newHasher : DefaultHasher
  finishPoint : DefaultHasher → SignatureGroup C → UInt64
  finishTuple : DefaultHasher → SignatureGroup C × SignatureGroup C × Pair C × String → UInt64

-- Nothing here returns an error: where one of the library turns up, `unwrap` panics.
abbrev ScenarioResult := ZmixResult Empty

def unwrapResult {α : Type} : PSResult α → ScenarioResult α
  | .ok a    => .ok a
  | .error _ => .error <| .panic "called `Result::unwrap()` on an `Err` value"

variable {C : Curve} (env : Env C)

def gSetup (countMsgs : ℕ) (label : List UInt8) (x y : FieldElement C) : Gpk C × Gmsk C :=
  forGSetup env.fromMsgHash₁ env.fromMsgHash₂ countMsgs label x y

-- The draws of `PKIJoin`: the key, and a signature over random messages that is thrown away.
structure PKIDraws (C : Curve) where
  x : FieldElement C
  y : ℕ → FieldElement C
  msg : ℕ → FieldElement C
  u : FieldElement C

def pkiJoin (countMsgs : ℕ) (label : List UInt8) (draws : PKIDraws C) :
    ScenarioResult (Verkey C × Sigkey C) := do
  let (upk, usk) := keygen env.fromMsgHash₁ env.fromMsgHash₂ countMsgs label draws.x draws.y
  let msg := (List.range countMsgs).map draws.msg
  let _signUsk ← unwrapResult <| Signature.new msg usk upk draws.u
  pure (upk, usk)

def hashing (s : env.DefaultHasher) (message : SignatureGroup C) : UInt64 :=
  env.finishPoint s message

def signUskI (s : env.DefaultHasher) (tow : SignatureGroup C) (usk : Sigkey C) (upk : Verkey C)
    (u : FieldElement C) : ScenarioResult (Signature C) :=
  let towHash := u64ToBeBytes <| hashing env s tow
  let oneMess := env.fromMsgHash towHash
  unwrapResult <| Signature.new [oneMess] usk upk u

-- What is printed: whether the verifier finds `A = g^rsp * Y^cha`.
def testSigmaProtocol (g : SignatureGroup C) (y : FieldElement C) (yPoint : SignatureGroup C)
    (r cha : FieldElement C) : Bool :=
  let a := r • g
  let rsp := r - y * cha
  let check := rsp • g + cha • yPoint
  a = check

structure JoinDraws (C : Curve) where
  ski : FieldElement C
  signature : FieldElement C
  r : FieldElement C
  cha : FieldElement C
  u : FieldElement C

-- What the group manager keeps of a user.
structure SecretRegister {C : Curve} (env : Env C) where
  i : ℕ
  tow : SignatureGroup C
  n : Signature C
  towTilde : OtherGroup C
  hashSaved : env.DefaultHasher

-- What the user keeps.
structure Gsk (C : Curve) where
  ski : FieldElement C
  sigma1 : SignatureGroup C
  sigma2 : SignatureGroup C
  e : Pair C

-- The two tests of the group manager are printed, and nothing depends on them.
structure Joined {C : Curve} (env : Env C) where
  secretRegister : SecretRegister env
  gsk : Gsk C
  pairingTest : Bool
  sigmaTest : Bool

def gJoin (i : ℕ) (gpk : Gpk C) (gmsk : Gmsk C) (upk : Verkey C) (usk : Sigkey C)
    (draws : JoinDraws C) : ScenarioResult (Joined env) := do
  let ski := draws.ski
  let tow := ski • gpk.g
  let towTilde := ski • gpk.yTilde
  let hashSaved := env.newHasher
  let n ← signUskI env hashSaved tow usk upk draws.signature
  let res := C.pair tow gpk.yTilde
  let res2 := C.pair gpk.g towTilde
  let u := draws.u
  let sigma1 := u • gpk.g
  let sigma2 := u • gmsk.x • gpk.g + u • gmsk.y • tow
  pure
    { secretRegister := { i, tow, n, towTilde, hashSaved }
      gsk := { ski, sigma1, sigma2, e := C.pair sigma1 gpk.yTilde }
      pairingTest := res = res2
      sigmaTest := testSigmaProtocol gpk.g ski tow draws.r draws.cha }

-- A group signature.
structure Mu (C : Curve) where
  sigma1 : SignatureGroup C
  sigma2 : SignatureGroup C
  c : FieldElement C
  s : FieldElement C

def h1 (s : env.DefaultHasher) (message : SignatureGroup C × SignatureGroup C × Pair C × String) :
    UInt64 :=
  env.finishTuple s message

-- `t` and `k` are drawn.
def gSign (gsk : Gsk C) (msg : String) (t k : FieldElement C) :
    Mu C × env.DefaultHasher × String :=
  let sigma1Dash := t • gsk.sigma1
  let sigma2Dash := t • gsk.sigma2
  let eTokTot := t • k • gsk.e
  let hashSaved := env.newHasher
  let number := u64ToBeBytes <| h1 env hashSaved (sigma1Dash, sigma2Dash, eTokTot, msg)
  let c := env.fromMsgHash number
  let s := k + c * gsk.ski
  ({ sigma1 := sigma1Dash, sigma2 := sigma2Dash, c, s }, hashSaved, msg)

-- `R` of `GVerify`
def Mu.r (gpk : Gpk C) (mu : Mu C) : Pair C :=
  let b := -mu.c
  C.pair (b • -mu.sigma1) gpk.xTilde + C.pair (b • mu.sigma2) gpk.gTilde +
    C.pair (mu.s • mu.sigma1) gpk.yTilde

def gVerify (gpk : Gpk C) (mu : Mu C) (hashForTuple : env.DefaultHasher) (msg : String) : Bool :=
  let number := u64ToBeBytes <| h1 env hashForTuple (mu.sigma1, mu.sigma2, mu.r gpk, msg)
  let c2 := env.fromMsgHash number
  mu.c = c2

-- What is printed for an entry that matches: the user, and whether the manager knows the right
-- `τ_tilde`.
structure Opening where
  identity : ℕ
  proofOfKnowledge : Bool
  deriving DecidableEq, Repr

def openEntry (gpk : Gpk C) (mu : Mu C) (r : FieldElement C) (gmsk : SecretRegister env) :
    Option Opening :=
  if GT.ate2Pairing mu.sigma2 gpk.gTilde (-mu.sigma1) gpk.xTilde =
      C.pair mu.sigma1 gmsk.towTilde then
    let cha := r • gpk.g
    let rsp := C.pair cha gmsk.towTilde
    some { identity := gmsk.i, proofOfKnowledge := rsp = r • C.pair gmsk.tow gpk.yTilde }
  else none

-- The draw `r` is made anew for each entry that matches.
def gOpen (gpk : Gpk C) (gmskArray : List (SecretRegister env)) (mu : Mu C)
    (r : ℕ → FieldElement C) : List Opening :=
  gmskArray.zipIdx.filterMap fun entry => openEntry env gpk mu (r entry.2) entry.1

-- The group as the scenario keeps it, and what a user brings along to join.
structure Group {C : Curve} (env : Env C) where
  gpk : Gpk C
  gmsk : Gmsk C
  gmskArray : List (SecretRegister env)
  gsks : List (Gsk C)

structure JoinRequest (C : Curve) where
  userId : ℕ
  countMsgs : ℕ
  label : List UInt8
  pki : PKIDraws C
  draws : JoinDraws C

def Group.join (self : Group env) (request : JoinRequest C) : ScenarioResult (Group env) := do
  let (upk, usk) ← pkiJoin env request.countMsgs request.label request.pki
  let joined ← gJoin env request.userId self.gpk self.gmsk upk usk request.draws
  pure
    { self with
      gmskArray := self.gmskArray ++ [joined.secretRegister]
      gsks := self.gsks ++ [joined.gsk] }

-- The group is set up, and users join one after the other.
def Group.run (countMsgs : ℕ) (label : List UInt8) (x y : FieldElement C)
    (requests : List (JoinRequest C)) : ScenarioResult (Group env) :=
  let (gpk, gmsk) := gSetup env countMsgs label x y
  requests.foldlM (Group.join env) { gpk, gmsk, gmskArray := [], gsks := [] }

end Scenario
end Ursa
