import Ursa.Collections
import Ursa.Pair

namespace Ursa

-- `libzmix`, `commitments/pok_vc.rs`. The group elements, the field of their exponents and the
-- pairing are those of `amcl_wrapper`.

-- How a call ends without a value: with an error of its module, or with a panic.
inductive ZmixFailure (Kind : Type)
  | err (kind : Kind)
  | panic (msg : String)
  deriving DecidableEq, Repr

abbrev ZmixResult (Kind : Type) := Except (ZmixFailure Kind)

namespace ZmixResult

variable {Kind Kind' α : Type}

abbrev fail (kind : Kind) : ZmixResult Kind α :=
  .error <| .err kind

def unwrap (value : Option α) : ZmixResult Kind α :=
  match value with
  | some a => .ok a
  | none   => .error <| .panic "called unwrap on an error"

-- `list[i]`
def nth (list : List α) (i : ℕ) : ZmixResult Kind α :=
  match list[i]? with
  | some a => .ok a
  | none   => .error <| .panic "index out of bounds"

-- `Vec::remove(0)`
def removeFirst (list : List α) : ZmixResult Kind (α × List α) :=
  match list with
  | []        => .error <| .panic "removal index out of bounds"
  | a :: list => .ok (a, list)

-- `-` of `usize`
def usizeSub (a b : ℕ) : ZmixResult Kind ℕ :=
  if b ≤ a then .ok (a - b)
  else .error <| .panic "attempt to subtract with overflow"

-- The `?` that turns the error of another module into one of its own.
def mapKind (f : Kind → Kind') (x : ZmixResult Kind α) : ZmixResult Kind' α :=
  match x with
  | .ok a               => .ok a
  | .error (.err kind)  => .error <| .err (f kind)
  | .error (.panic msg) => .error <| .panic msg

end ZmixResult

-- `std::collections` with indices as keys
abbrev IndexMap (V : Type) := Finmap (fun _ : ℕ => V)

abbrev IndexSet := HashSet ℕ

abbrev FieldElement (C : Curve) := ZMod C.q

-- `G1::generator` and `G2::generator`
structure Generators (C : Curve) where
  g1 : PointG1 C
  g2 : PointG2 C

namespace GT

variable {C : Curve}

-- The product of two pairings, which is `+` here.
def ate2Pairing (g1 : PointG1 C) (g2 : PointG2 C) (h1 : PointG1 C) (h2 : PointG2 C) : Pair C :=
  C.pair g1 g2 + C.pair h1 h2

def isOne (self : Pair C) : Bool :=
  self = 0

end GT

variable {C : Curve} {G : Type} [AddCommGroup G] [Module (FieldElement C) G] [DecidableEq G]

-- `multi_scalar_mul_const_time` and `multi_scalar_mul_var_time`, which differ in time only. Lists
-- of different lengths are an error.
def multiScalarMul (points : List G) (scalars : List (FieldElement C)) : Option G :=
  if points.length = scalars.length then some (List.zipWith (· • ·) scalars points).sum else none

inductive PoKVCErrorKind
  | unequalNoOfBasesExponents (bases exponents : ℕ)
  | generalError (msg : String)
  deriving DecidableEq, Repr

structure ProverCommitting (C : Curve) (G : Type) where
  gens : List G
  blindings : List (FieldElement C)

structure ProverCommitted (C : Curve) (G : Type) where
  gens : List G
  blindings : List (FieldElement C)
  commitment : G

structure ProofVC (C : Curve) (G : Type) where
  commitment : G
  responses : List (FieldElement C)

open ZmixResult

namespace ProverCommitting

def new : ProverCommitting C G where
  gens := []
  blindings := []

-- A blinding that is not given is drawn.
def commit (self : ProverCommitting C G) (gen : G) (blinding : Option (FieldElement C))
    (random : FieldElement C) : ProverCommitting C G × ℕ :=
  let idx := self.gens.length
  let self :=
    { gens := self.gens ++ [gen]
      blindings := self.blindings ++ [blinding.getD random] }
  (self, idx)

def finish (self : ProverCommitting C G) : ZmixResult Kind (ProverCommitted C G) := do
  let commitment ← unwrap <| multiScalarMul self.gens self.blindings
  pure { gens := self.gens, blindings := self.blindings, commitment }

end ProverCommitting

def ProverCommitted.genProof (self : ProverCommitted C G) (challenge : FieldElement C)
    (secrets : List (FieldElement C)) : ZmixResult PoKVCErrorKind (ProofVC C G) :=
  if secrets.length ≠ self.gens.length then
    fail <| .unequalNoOfBasesExponents self.gens.length secrets.length
  else do
    let responses ← (List.range self.gens.length).mapM fun i => do
      let blinding ← nth self.blindings i
      let secret ← nth secrets i
      pure (blinding - challenge * secret)
    pure { commitment := self.commitment, responses }

def ProofVC.verify (self : ProofVC C G) (bases : List G) (commitment : G)
    (challenge : FieldElement C) : ZmixResult PoKVCErrorKind Bool :=
  if bases.length ≠ self.responses.length then
    fail <| .unequalNoOfBasesExponents bases.length self.responses.length
  else do
    let points := bases ++ [commitment]
    let scalars := self.responses ++ [challenge]
    let product ← unwrap <| multiScalarMul points scalars
    pure <| decide (product - self.commitment = 0)

-- What the two signature schemes have in common: the check of the revealed indices, the blindings
-- of the hidden messages, and the loops that skip one kind of index.
def checkIndices (error : String → Kind) (indices : List ℕ) (count : ℕ) : ZmixResult Kind Unit :=
  indices.forM fun idx =>
    if count ≤ idx then fail <| error s!"Index {idx} should be less than {count}" else pure ()

def hiddenBlindings (error : ℕ → ℕ → Kind) (messages revealed : ℕ)
    (blindings : Option (List (FieldElement C))) :
    ZmixResult Kind (List (Option (FieldElement C))) := do
  let hidden ← usizeSub messages revealed
  match blindings with
  | some b => if hidden ≠ b.length then fail <| error b.length hidden else pure (b.map some)
  | none   => pure (List.replicate hidden none)

def hiddenIndices (count : ℕ) (revealed : IndexSet) : List ℕ :=
  (List.range count).filter (· ∉ revealed)

def revealedIndices (count : ℕ) (revealed : IndexSet) : List ℕ :=
  (List.range count).filter (· ∈ revealed)

end Ursa
