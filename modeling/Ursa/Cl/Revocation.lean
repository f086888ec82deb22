import Ursa.Cl.Helpers

namespace Ursa

-- `cl/mod.rs`: the changes of a revocation registry, its tails, and the witnesses of the holders.

variable {C : Curve}

structure RevocationRegistryDelta (C : Curve) where
  prevAccum : Option (Accumulator C)
  accum : Accumulator C
  issued : HashSet UInt32
  revoked : HashSet UInt32

namespace RevocationRegistryDelta

def fromParts (revRegFrom : Option (RevocationRegistry C)) (revRegTo : RevocationRegistry C)
    (issued revoked : HashSet UInt32) : RevocationRegistryDelta C where
  prevAccum := revRegFrom.map (·.accum)
  accum := revRegTo.accum
  issued := issued
  revoked := revoked

-- `merge` takes `&mut self`: the delta after the call is the second component. The four steps on
-- the sets read what the steps before have changed.
def merge (self otherDelta : RevocationRegistryDelta C) :
    UrsaCryptoResult Unit × RevocationRegistryDelta C :=
  if otherDelta.prevAccum ≠ some self.accum then
    (.error <| .err .invalidStructure "Deltas can not be merged.", self)
  else
    let issued := self.issued ∪ (otherDelta.issued \ self.revoked)
    let revoked := self.revoked ∪ (otherDelta.revoked \ issued)
    (.ok (),
      { self with
        accum := otherDelta.accum
        issued := issued \ otherDelta.revoked
        revoked := revoked \ otherDelta.issued })

end RevocationRegistryDelta

abbrev Tail (C : Curve) := PointG2 C

-- `Tail::new_tail`
def newTail (index : UInt32) (gDash : PointG2 C) (gamma : GroupOrderElement C) :
    UrsaCryptoResult (Tail C) := do
  let pow ← gamma.powMod (transformU32ToArrayOfU8 index)
  pure (pow • gDash)

structure RevocationTailsGenerator (C : Curve) where
  size : UInt32
  currentIndex : UInt32
  gDash : PointG2 C
  gamma : GroupOrderElement C

namespace RevocationTailsGenerator

def new (maxCredNum : UInt32) (gamma : GroupOrderElement C) (gDash : PointG2 C) :
    UrsaCryptoResult (RevocationTailsGenerator C) := do
  -- Unused 0th, valuable 1..L, unused (L+1)th and valuable (L+2)..(2L).
  let size ← addU32 (← mulU32 2 maxCredNum) 1
  pure { size, currentIndex := 0, gDash, gamma }

def tryNext (self : RevocationTailsGenerator C) :
    UrsaCryptoResult (Option (Tail C) × RevocationTailsGenerator C) :=
  if self.size ≤ self.currentIndex then .ok (none, self)
  else do
    let tail ← newTail self.currentIndex self.gDash self.gamma
    let currentIndex ← addU32 self.currentIndex 1
    pure (some tail, { self with currentIndex })

end RevocationTailsGenerator

-- `RevocationTailsAccessor`: the tail that `access_tail` hands to its closure.
abbrev RevocationTailsAccessor (C : Curve) := UInt32 → UrsaCryptoResult (Tail C)

structure SimpleTailsAccessor (C : Curve) where
  tails : List (Tail C)

namespace SimpleTailsAccessor

def accessTail (self : SimpleTailsAccessor C) : RevocationTailsAccessor C :=
  fun tailId => index self.tails tailId.toNat

-- The loop of `new`, for at most `rounds` rounds.
def collect (revTailsGenerator : RevocationTailsGenerator C) (tails : List (Tail C)) :
    ℕ → UrsaCryptoResult (SimpleTailsAccessor C × RevocationTailsGenerator C)
  | 0 => .ok ({ tails }, revTailsGenerator)
  | rounds + 1 => do
    match ← revTailsGenerator.tryNext with
    | (some tail, revTailsGenerator) => collect revTailsGenerator (tails ++ [tail]) rounds
    | (none, revTailsGenerator)      => pure ({ tails }, revTailsGenerator)

-- The generator has no more than `size` tails, so that the last round finds none.
def new (revTailsGenerator : RevocationTailsGenerator C) :
    UrsaCryptoResult (SimpleTailsAccessor C × RevocationTailsGenerator C) :=
  collect revTailsGenerator [] (revTailsGenerator.size.toNat + 1)

end SimpleTailsAccessor

-- `1..=max_cred_num`
def indices (maxCredNum : UInt32) : HashSet UInt32 :=
  (Finset.Icc 1 maxCredNum.toNat).image UInt32.ofNat

-- `max_cred_num + 1 - j + rev_idx`
def witnessIndex (maxCredNum j revIdx : UInt32) : UrsaCryptoResult UInt32 := do
  addU32 (← subU32 (← addU32 maxCredNum 1) j) revIdx

-- One round of the loops of `Witness::new` and `Witness::update`.
def addTail (revIdx maxCredNum : UInt32) (revTailsAccessor : RevocationTailsAccessor C)
    (omega : PointG2 C) (j : UInt32) : UrsaCryptoResult (PointG2 C) := do
  let index ← witnessIndex maxCredNum j revIdx
  let tail ← revTailsAccessor index
  pure (omega + tail)

namespace Witness

-- `order` lists the elements of a hash set in the order in which the loop meets them.
def new (order : HashOrder UInt32) (revIdx maxCredNum : UInt32) (issuanceByDefault : Bool)
    (revRegDelta : RevocationRegistryDelta C) (revTailsAccessor : RevocationTailsAccessor C) :
    UrsaCryptoResult (Witness C) := do
  let issued :=
    if issuanceByDefault then indices maxCredNum \ revRegDelta.revoked
    else revRegDelta.issued
  let omega ← (order.iter (issued.erase revIdx)).foldlM
    (addTail revIdx maxCredNum revTailsAccessor) 0
  pure { omega }

-- The rounds of `update` skip the holder's own index.
def sumTails (order : HashOrder UInt32) (revIdx maxCredNum : UInt32) (indices : HashSet UInt32)
    (revTailsAccessor : RevocationTailsAccessor C) : UrsaCryptoResult (PointG2 C) :=
  ((order.iter indices).filter (· ≠ revIdx)).foldlM (addTail revIdx maxCredNum revTailsAccessor) 0

def update (self : Witness C) (order : HashOrder UInt32) (revIdx maxCredNum : UInt32)
    (revRegDelta : RevocationRegistryDelta C) (revTailsAccessor : RevocationTailsAccessor C) :
    UrsaCryptoResult (Witness C) := do
  let omegaDenom ← sumTails order revIdx maxCredNum revRegDelta.revoked revTailsAccessor
  let omegaNum ← sumTails order revIdx maxCredNum revRegDelta.issued revTailsAccessor
  pure { omega := self.omega + (omegaNum - omegaDenom) }

end Witness
end Ursa
