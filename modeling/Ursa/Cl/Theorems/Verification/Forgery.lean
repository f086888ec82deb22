import Ursa.Cl.Theorems.PrimaryProof
import Ursa.Cl.Theorems.Responses
import Ursa.Cl.Theorems.Verification.Strategy

namespace Ursa

open BigNumber UrsaCryptoResult ProofVerifier

variable {C : Curve} {env : Env} {pPubKey : CredentialPrimaryPublicKey} {cHash : ℤ}

section Equality

variable {aPrime e e' v m2 : ℤ} {m : HashMap BigNumber}

-- The factor of one attribute in `calcTeq`; its base need not be a unit.
def attrFactor (pPubKey : CredentialPrimaryPublicKey) (m : HashMap BigNumber) (k : String) :
    ZMod pPubKey.n.natAbs :=
  (((calcTeqAttr pPubKey m 1 k).toOption.getD 0 : ℤ) : ZMod pPubKey.n.natAbs)

theorem calcTeqAttr_eq_factor (h : calcTeqAttr pPubKey m x k = .ok y) :
    (y : ZMod pPubKey.n.natAbs) = attrFactor pPubKey m k * (x : ZMod pPubKey.n.natAbs) := by
  simp only [calcTeqAttr, bind_eq_ok_iff, okOrElse_eq_ok_iff] at h
  obtain ⟨curR, hr, curM, hm, power, hp, h⟩ := h
  obtain ⟨y₁, hy₁⟩ := modMul_ok (modMul_eq_ok_iff.mp h).1 power 1
  have hone : calcTeqAttr pPubKey m 1 k = .ok y₁ := by
    simp only [calcTeqAttr, hr, hm, okOrElse, ok_bind, hp, hy₁]
  have hfactor : attrFactor pPubKey m k = (power : ZMod pPubKey.n.natAbs) := by
    rw [attrFactor, hone]
    exact (modMul_cast hy₁).trans (by simp)
  rw [modMul_cast h, hfactor]

-- Only the first factor of `calcTeq` depends on the exponent `e`.
theorem calcTeq_shift {a : (ZMod pPubKey.n.natAbs)ˣ} (ha : (aPrime : ZMod pPubKey.n.natAbs) = a)
    (h : calcTeq pPubKey env aPrime e v m m2 unrevealed = .ok t)
    (h' : calcTeq pPubKey env aPrime e' v m m2 unrevealed = .ok t') :
    (t : ZMod pPubKey.n.natAbs) = ↑(a ^ (e - e')) * (t' : ZMod pPubKey.n.natAbs) := by
  simp only [calcTeq, bind_eq_ok_iff] at h h'
  obtain ⟨x, hx, y, hy, sPower, hs, z, hz, rPower, hr, h⟩ := h
  obtain ⟨x', hx', y', hy', sPower', hs', z', hz', rPower', hr', h'⟩ := h'
  obtain rfl := ok_injective <| hs.symm.trans hs'
  obtain rfl := ok_injective <| hr.symm.trans hr'
  have hprod := foldlM_prod (fun b : BigNumber => (b : ZMod pPubKey.n.natAbs)) _
    (fun k _ b b' hb => calcTeqAttr_eq_factor hb) hy
  have hprod' := foldlM_prod (fun b : BigNumber => (b : ZMod pPubKey.n.natAbs)) _
    (fun k _ b b' hb => calcTeqAttr_eq_factor hb) hy'
  have hpow : (x : ZMod pPubKey.n.natAbs) = ↑(a ^ (e - e')) * (x' : ZMod pPubKey.n.natAbs) := by
    rw [modExp_unit hx ha, modExp_unit hx' ha, ← Units.val_mul, ← zpow_add, sub_add_cancel]
  rw [modMul_cast h, modMul_cast hz, modMul_cast h', modMul_cast hz', hprod, hprod', hpow]
  ring

theorem calcTeq_canonical (h : calcTeq pPubKey env aPrime e v m m2 unrevealed = .ok t) :
    0 ≤ t ∧ t < pPubKey.n.natAbs := by
  simp only [calcTeq, bind_eq_ok_iff] at h
  obtain ⟨_, -, _, -, _, -, _, -, _, -, h⟩ := h
  exact modMul_canonical h

end Equality

section Forgery

variable {common : HashMap (Option BigNumber)} {cred : VerifiableCredential C}

-- The order of the group of units, which every exponent can be shifted by.
def groupOrder (n : BigNumber) : ℤ :=
  Nat.totient n.natAbs

theorem zpow_groupOrder {n : ℤ} (a : (ZMod n.natAbs)ˣ) (k : ℤ) : a ^ (groupOrder n * k) = 1 := by
  rw [zpow_mul, groupOrder, zpow_natCast, ZMod.pow_totient, one_zpow]

theorem groupOrder_pos {n : ℤ} (hn : 1 < n.natAbs) : 0 < groupOrder n :=
  Int.ofNat_lt.mpr <| Nat.totient_pos.mpr <| by omega

-- The absolute value of the response `e` of a prover that follows the protocol is smaller.
def honestEBound : ℤ :=
  2 ^ 457

-- What can be sent with the public key alone: the number `Z` signs the credential without any
-- attributes for the exponent 1, and of the attributes every value is 0, or the one that is asked
-- for as a common attribute.
def forgedEqProof (common : HashMap (Option BigNumber)) (cHash : BigNumber)
    (cred : VerifiableCredential C) : PrimaryEqualProof where
  revealedAttrs := HashMap.tabulate (BTreeSet.iter cred.subProofRequest.revealedAttrs) fun _ => 0
  aPrime := cred.pubKey.pKey.z
  e := cHash * (1 - largeEStartValue) - groupOrder cred.pubKey.pKey.n * honestEBound
  v := 0
  m := HashMap.tabulate (BTreeSet.iter (cred.unrevealed ∪ common.keys)) (keptValue common)
  m2 := 0

-- The response to a predicate, as a number that the equality part does not have for its attribute.
def forgedMj (common : HashMap (Option BigNumber)) (cHash : BigNumber)
    (cred : VerifiableCredential C) (predicate : Predicate) : BigNumber :=
  let mj := cHash * predicate.getDeltaPrime
  if (forgedEqProof common cHash cred).m.lookup predicate.attrName = some mj then
    mj + groupOrder cred.pubKey.pKey.n
  else mj

def constantMap (x : BigNumber) : HashMap BigNumber :=
  (ProofBuilder.iterationMap fun _ => x).insert "DELTA" x

def forgedNeProof (common : HashMap (Option BigNumber)) (cHash : BigNumber)
    (cred : VerifiableCredential C) (predicate : Predicate) : PrimaryPredicateInequalityProof where
  u := constantMap 0
  r := constantMap 0
  mj := forgedMj common cHash cred predicate
  alpha := 0
  t := constantMap 1
  predicate := predicate

def forgedPrimaryProof (common : HashMap (Option BigNumber)) (cHash : BigNumber)
    (cred : VerifiableCredential C) : PrimaryProof where
  eqProof := forgedEqProof common cHash cred
  neProofs := (BTreeSet.iter cred.subProofRequest.predicates).map (forgedNeProof common cHash cred)

-- The value that the verifier computes for the equality part: the challenge cancels.
def forgedTau (env : Env) (common : HashMap (Option BigNumber)) (cred : VerifiableCredential C) :
    BigNumber :=
  (calcTeq cred.pubKey.pKey env cred.pubKey.pKey.z 0 0 (forgedEqProof common 0 cred).m 0
    cred.unrevealed).toOption.getD 0

def forgedTaus (env : Env) (common : HashMap (Option BigNumber)) (cred : VerifiableCredential C) :
    List BigNumber :=
  forgedTau env common cred ::
    (BTreeSet.iter cred.subProofRequest.predicates).flatMap fun _ => List.replicate 6 1

theorem lookup_forgedM (ha : a ∈ cred.unrevealed ∪ common.keys) :
    (forgedEqProof common cHash cred).m.lookup a = some (keptValue common a) := by
  rw [forgedEqProof, HashMap.lookup_tabulate, if_pos (BTreeSet.mem_iter.mpr ha)]

theorem lookup_constantMap (x : BigNumber) (hi : i < iteration) :
    (constantMap x).lookup (toString i) = some x := by
  rw [constantMap, Finmap.lookup_insert_of_ne _ (ProofBuilder.toString_ne_delta hi),
    ProofBuilder.lookup_iterationMap _ hi]

theorem lookup_constantMap_delta (x : BigNumber) : (constantMap x).lookup "DELTA" = some x :=
  Finmap.lookup_insert _

theorem attrDefined_forgedM (h : cred.Usable common) (ha : a ∈ cred.unrevealed) :
    AttrDefined cred.pubKey.pKey (forgedEqProof common cHash cred).m a := by
  obtain ⟨r, hr⟩ := Finmap.mem_iff.mp <| h.base a <| Finset.mem_union_left _ ha
  refine ⟨r, _, hr, lookup_forgedM <| Finset.mem_union_left _ ha, ?_⟩
  cases hx : common.lookup a
  case none => exact .inl <| by simp [keptValue, hx]
  case some value =>
    cases value
    case none => exact .inl <| by simp [keptValue, hx]
    case some x =>
      have hkept : keptValue common a = x := by simp [keptValue, hx]
      rw [hkept]
      exact h.kept a ha x r hx hr

theorem calcTeq_forged_ok (h : cred.Usable common) (e : ℤ) :
    ∃ t, calcTeq cred.pubKey.pKey env cred.pubKey.pKey.z e 0 (forgedEqProof common cHash cred).m 0
      cred.unrevealed = .ok t :=
  calcTeq_ok_iff.mpr ⟨ne_zero_of_one_lt h.n, .inr ⟨h.n, h.z⟩, fun _ ha => attrDefined_forgedM h ha,
    .inl le_rfl, .inl le_rfl⟩

theorem forgedTau_eq (h : cred.Usable common) (cHash : ℤ) :
    calcTeq cred.pubKey.pKey env cred.pubKey.pKey.z 0 0 (forgedEqProof common cHash cred).m 0
      cred.unrevealed = .ok (forgedTau env common cred) := by
  obtain ⟨t, ht⟩ : ∃ t, calcTeq cred.pubKey.pKey env cred.pubKey.pKey.z 0 0
      (forgedEqProof common cHash cred).m 0 cred.unrevealed = .ok t := calcTeq_forged_ok h 0
  have htau : forgedTau env common cred = t := congrArg (·.toOption.getD 0) ht
  rw [ht, htau]

-- The value 0 of a revealed attribute leaves the product as it is.
theorem verifyRevealedAttr_zero (hn : 1 < pPubKey.n.natAbs) (ha : a ∈ pPubKey.r) (rar : ℤ) :
    ∃ rar', verifyRevealedAttr pPubKey rar (a, 0) = .ok rar' ∧
      (rar' : ZMod pPubKey.n.natAbs) = 1 * (rar : ZMod pPubKey.n.natAbs) := by
  obtain ⟨r, hr⟩ := Finmap.mem_iff.mp ha
  obtain ⟨rar', hrar⟩ := modMul_ok (ne_zero_of_one_lt hn) 1 rar
  refine ⟨rar', ?_, by simpa using modMul_cast hrar⟩
  simp only [verifyRevealedAttr, hr, okOrElse, ok_bind, modExp_zero hn, hrar]

theorem revealed_forged (cHash : ℤ) (h : cred.Usable common) (x : ℤ) : ∃ rar,
    (forgedEqProof common cHash cred).revealedAttrs.iter.foldlM
      (verifyRevealedAttr cred.pubKey.pKey) x = .ok rar ∧
      (rar : ZMod cred.pubKey.pKey.n.natAbs) = x := by
  have hstep : ∀ entry ∈ (forgedEqProof common cHash cred).revealedAttrs.iter, ∀ rar : ℤ,
      ∃ rar', verifyRevealedAttr cred.pubKey.pKey rar entry = .ok rar' ∧
        (rar' : ZMod cred.pubKey.pKey.n.natAbs) = 1 * (rar : ZMod cred.pubKey.pKey.n.natAbs) := by
    rintro ⟨a, value⟩ hentry rar
    rw [BTreeMap.mem_iter, forgedEqProof, HashMap.lookup_tabulate] at hentry
    split at hentry
    case isFalse => cases hentry
    case isTrue ha =>
      obtain rfl := Option.some.inj hentry
      exact verifyRevealedAttr_zero h.n
        (h.base a <| Finset.mem_union_right _ <| BTreeSet.mem_iter.mp ha) rar
  obtain ⟨rar, hrar⟩ := foldlM_ok (fun entry hentry b => by
    obtain ⟨b', hb', -⟩ := hstep entry hentry b
    exact ⟨b', hb'⟩) x
  have hprod := foldlM_prod (fun b : BigNumber => (b : ZMod cred.pubKey.pKey.n.natAbs))
    (fun _ => 1) (fun entry hentry b b' hb => by
      obtain ⟨b'', hb'', hcast⟩ := hstep entry hentry b
      obtain rfl := ok_injective <| hb.symm.trans hb''
      exact hcast) hrar
  exact ⟨rar, hrar, by simpa using hprod⟩

theorem verifyEquality_forged (h : cred.Usable common) (hc : 0 ≤ cHash) :
    verifyEquality env cred.pubKey.pKey (forgedEqProof common cHash cred) cHash
      cred.credentialSchema cred.nonCredentialSchema cred.subProofRequest =
      .ok [forgedTau env common cred] := by
  have hn₀ := ne_zero_of_one_lt h.n
  obtain ⟨z, hz⟩ := ModArith.isUnit_cast_iff.mpr h.z
  obtain ⟨t₁, ht₁⟩ : ∃ t, calcTeq cred.pubKey.pKey env cred.pubKey.pKey.z
      (forgedEqProof common cHash cred).e 0 (forgedEqProof common cHash cred).m 0 cred.unrevealed =
        .ok t := calcTeq_forged_ok h _
  obtain ⟨x, hx⟩ : ∃ x, modExp cred.pubKey.pKey.z largeEStartValue cred.pubKey.pKey.n = .ok x :=
    modExp_ok_iff.mpr ⟨hn₀, .inr ⟨h.n, h.z⟩⟩
  obtain ⟨rar, hrar, hrarCast⟩ := revealed_forged cHash h x
  have hxCast := modExp_unit hx hz.symm
  have hrarUnit : (rar : ZMod cred.pubKey.pKey.n.natAbs) = ↑(z ^ largeEStartValue) :=
    hrarCast.trans hxCast
  obtain ⟨quotient, hquotient⟩ := modDiv_ok h.n ⟨_, hrarUnit.symm⟩ cred.pubKey.pKey.z
  have hquotientUnit := modDiv_unit hquotient hz.symm hrarUnit
  obtain ⟨inverse, hinverse⟩ := inverse_ok_of_isUnit h.n ⟨_, hquotientUnit.symm⟩
  obtain ⟨t₂, ht₂⟩ : ∃ y, modExp inverse cHash cred.pubKey.pKey.n = .ok y :=
    modExp_ok_iff.mpr ⟨hn₀, .inl hc⟩
  obtain ⟨t, ht⟩ := modMul_ok hn₀ t₁ t₂
  have hexp : z ^ ((forgedEqProof common cHash cred).e - 0) * (z / z ^ largeEStartValue)⁻¹ ^ cHash =
      1 := by
    have hpow : (z / z ^ largeEStartValue)⁻¹ = z ^ (largeEStartValue - 1) := by
      rw [inv_div, zpow_sub, zpow_one, div_eq_mul_inv]
    have hcancel : (forgedEqProof common cHash cred).e - 0 + (largeEStartValue - 1) * cHash =
        groupOrder cred.pubKey.pKey.n * -honestEBound := by
      rw [forgedEqProof]
      ring
    rw [hpow, ← zpow_mul, ← zpow_add, hcancel, zpow_groupOrder]
  have htCast : (t : ZMod cred.pubKey.pKey.n.natAbs) =
      (forgedTau env common cred : ZMod cred.pubKey.pKey.n.natAbs) := by
    rw [modMul_cast ht, calcTeq_shift hz.symm ht₁ (forgedTau_eq h cHash),
      modExp_unit ht₂ (inverse_unit hinverse hquotientUnit), mul_right_comm, ← Units.val_mul, hexp,
      Units.val_one, one_mul]
  obtain rfl := ModArith.canonical_unique (modMul_canonical ht)
    (calcTeq_canonical <| forgedTau_eq h cHash) htCast
  have hunrevealed : unrevealedAttrs cred.credentialSchema cred.nonCredentialSchema
      cred.subProofRequest = cred.unrevealed := rfl
  have haPrime : (forgedEqProof common cHash cred).aPrime = cred.pubKey.pKey.z := rfl
  have hv : (forgedEqProof common cHash cred).v = 0 := rfl
  have hm2 : (forgedEqProof common cHash cred).m2 = 0 := rfl
  simp only [verifyEquality, hunrevealed, haPrime, hv, hm2, ht₁, hx, hrar, hquotient, hinverse, ht₂,
    ht, ok_bind, pure_eq_ok_iff]

section Predicate

variable {n : ℤ} {mj : ℤ} {predicate : Predicate}

theorem one_canonical (hn : 1 < n.natAbs) : (0 : ℤ) ≤ 1 ∧ (1 : ℤ) < n.natAbs :=
  ⟨zero_le_one, Int.ofNat_lt.mpr hn⟩

theorem modMul_one_one (hn : 1 < n.natAbs) : modMul 1 1 n = .ok 1 :=
  modMul_eq_ok_iff.mpr ⟨ne_zero_of_one_lt hn, by rw [one_mul, one_emod hn]⟩

-- A value that is the power for the challenge comes out as 1, whatever the challenge is.
theorem withChallenge_eq_one {base tau : ℤ} {b : (ZMod n.natAbs)ˣ} (hn : 1 < n.natAbs)
    (hb : (base : ZMod n.natAbs) = b) (htau : (tau : ZMod n.natAbs) = ↑(b ^ cHash)) :
    withChallenge base cHash tau n = .ok 1 := by
  have hn₀ := ne_zero_of_one_lt hn
  obtain ⟨power, hpower⟩ := modExp_ok_of_isUnit (e := cHash) hn ⟨b, hb.symm⟩
  have hpowerUnit := modExp_unit hpower hb
  obtain ⟨inverse, hinverse⟩ := inverse_ok_of_isUnit hn ⟨_, hpowerUnit.symm⟩
  obtain ⟨y, hy⟩ := modMul_ok hn₀ inverse tau
  have hcast : (y : ZMod n.natAbs) = ((1 : ℤ) : ZMod n.natAbs) := by
    rw [modMul_cast hy, inverse_unit hinverse hpowerUnit, htau, Units.inv_mul, Int.cast_one]
  rw [← ModArith.canonical_unique (modMul_canonical hy) (one_canonical hn) hcast]
  simp only [withChallenge, hpower, hinverse, hy, ok_bind]

theorem calcTneRoot_zero (hn : 1 < pPubKey.n.natAbs) (hi : i < iteration) :
    calcTneRoot pPubKey (constantMap 0) (constantMap 0) i = .ok 1 := by
  simp only [calcTneRoot, lookup_constantMap 0 hi, okOrElse, ok_bind, modExp_zero hn,
    modMul_one_one hn]

theorem calcTneProduct_zero (hn : 1 < pPubKey.n.natAbs) (hi : i < iteration) :
    calcTneProduct pPubKey (constantMap 0) (constantMap 1) 1 i = .ok 1 := by
  simp only [calcTneProduct, lookup_constantMap _ hi, okOrElse, ok_bind, modExp_zero hn]
  rfl

-- With zeros for `u`, `r` and `alpha` only the commitment to the difference is left.
theorem calcTne_zero (hn : 1 < pPubKey.n.natAbs) (hx : modExp pPubKey.z mj pPubKey.n = .ok x)
    (isLess : Bool) : ∃ tTau, modMul x 1 pPubKey.n = .ok tTau ∧
      calcTne pPubKey (constantMap 0) (constantMap 0) mj 0 (constantMap 1) isLess =
        .ok [1, 1, 1, 1, tTau, 1] := by
  obtain ⟨tTau, htTau⟩ := modMul_ok (ne_zero_of_one_lt hn) x 1
  have hroots : (List.range iteration).mapM
      (calcTneRoot pPubKey (constantMap 0) (constantMap 0)) = .ok [1, 1, 1, 1] :=
    mapM_const fun i hi => calcTneRoot_zero hn <| List.mem_range.mp hi
  have hproduct : (List.range iteration).foldlM
      (calcTneProduct pPubKey (constantMap 0) (constantMap 1)) 1 = .ok 1 :=
    foldlM_const fun i hi => calcTneProduct_zero hn <| List.mem_range.mp hi
  have hdelta : deltaPredicate 0 isLess = 0 := by cases isLess <;> rfl
  refine ⟨tTau, htTau, ?_⟩
  simp only [calcTne, hroots, lookup_constantMap_delta, okOrElse, ok_bind, hx, hdelta,
    modExp_zero hn, htTau, hproduct, modMul_one_one hn, pure_eq_ok_iff]
  rfl

theorem directDelta_one (hn : 1 < n.natAbs) (isLess : Bool) : directDelta isLess 1 n = .ok 1 := by
  cases isLess
  case false => rfl
  case true =>
    obtain ⟨y, hy⟩ := inverse_ok (x := 1) hn Int.one_gcd
    have hcast : (y : ZMod n.natAbs) = ((1 : ℤ) : ZMod n.natAbs) := by
      have hone := (inverse_eq_ok hy).2.2.1
      simpa using hone
    rw [directDelta, if_pos rfl, hy,
      ModArith.canonical_unique (inverse_eq_ok hy).2.2.2 (one_canonical hn) hcast]

-- The shift of the response by the order of the group does not show.
theorem zpow_forgedMj (z : (ZMod cred.pubKey.pKey.n.natAbs)ˣ) (predicate : Predicate) :
    z ^ forgedMj common cHash cred predicate = (z ^ predicate.getDeltaPrime) ^ cHash := by
  have hshift : z ^ groupOrder cred.pubKey.pKey.n = 1 := by
    simpa using zpow_groupOrder z 1
  rw [forgedMj, ← zpow_mul, mul_comm predicate.getDeltaPrime]
  split
  case isTrue => rw [zpow_add, hshift, mul_one]
  case isFalse => rfl

theorem withChallenge_one (hn : 1 < n.natAbs) (cHash : ℤ) :
    withChallenge 1 cHash 1 n = .ok 1 :=
  withChallenge_eq_one (b := 1) hn (by simp) (by simp)

theorem verifyNeRoot_forged (hn : 1 < pPubKey.n.natAbs) (hi : i < iteration) :
    verifyNeRoot pPubKey (constantMap 1) cHash [1, 1, 1, 1, tTau, 1] i = .ok 1 := by
  have hcases : i = 0 ∨ i = 1 ∨ i = 2 ∨ i = 3 := by unfold iteration at hi; omega
  have hindex : index [1, 1, 1, 1, tTau, 1] i = .ok 1 := by
    obtain rfl | rfl | rfl | rfl := hcases <;> rfl
  simp only [verifyNeRoot, lookup_constantMap _ hi, okOrElse, hindex, withChallenge_one hn, ok_bind]

theorem verifyNePredicate_forged (h : cred.Usable common) (predicate : Predicate) :
    verifyNePredicate cred.pubKey.pKey (forgedNeProof common cHash cred predicate) cHash =
      .ok (List.replicate 6 1) := by
  obtain ⟨z, hz⟩ := ModArith.isUnit_cast_iff.mpr h.z
  obtain ⟨x, hx⟩ := modExp_ok_of_isUnit (e := forgedMj common cHash cred predicate) h.n ⟨z, hz⟩
  obtain ⟨bound, hbound⟩ := modExp_ok_of_isUnit (e := predicate.getDeltaPrime) h.n ⟨z, hz⟩
  obtain ⟨tTau, htTau, htne⟩ := calcTne_zero h.n hx predicate.isLess
  have hroots : (List.range iteration).mapM
      (verifyNeRoot cred.pubKey.pKey (constantMap 1) cHash [1, 1, 1, 1, tTau, 1]) =
        .ok [1, 1, 1, 1] :=
    mapM_const fun i hi => verifyNeRoot_forged h.n <| List.mem_range.mp hi
  have htauDelta : withChallenge (bound * 1) cHash tTau cred.pubKey.pKey.n = .ok 1 := by
    refine withChallenge_eq_one (b := z ^ predicate.getDeltaPrime) h.n ?_ ?_
    · rw [mul_one, modExp_unit hbound hz.symm]
    · rw [modMul_cast htTau, Int.cast_one, mul_one, modExp_unit hx hz.symm, zpow_forgedMj]
  have hidx₄ : index [1, 1, 1, 1, tTau, 1] iteration = .ok tTau := rfl
  have hidx₅ : index [1, 1, 1, 1, tTau, 1] (iteration + 1) = .ok 1 := rfl
  simp only [verifyNePredicate, forgedNeProof, htne, hroots, lookup_constantMap_delta, okOrElse,
    directDelta_one h.n, hbound, hidx₄, htauDelta, hidx₅, withChallenge_one h.n, ok_bind,
    pure_eq_ok_iff]
  rfl

end Predicate

theorem verifyPrimaryProof_forged (h : cred.Usable common) (hc : 0 ≤ cHash) :
    verifyPrimaryProof env cred.pubKey.pKey cHash (forgedPrimaryProof common cHash cred)
      cred.credentialSchema cred.nonCredentialSchema cred.subProofRequest =
      .ok (forgedTaus env common cred) := by
  have hne : (forgedPrimaryProof common cHash cred).neProofs.mapM
      (verifyNePredicate cred.pubKey.pKey · cHash) =
      .ok ((BTreeSet.iter cred.subProofRequest.predicates).map fun _ => List.replicate 6 1) := by
    rw [forgedPrimaryProof, mapM_eq_ok_iff, List.forall₂_map_left_iff, List.forall₂_map_right_iff]
    exact List.forall₂_same.mpr fun predicate _ => verifyNePredicate_forged h predicate
  have heq : (forgedPrimaryProof common cHash cred).eqProof = forgedEqProof common cHash cred := rfl
  simp only [verifyPrimaryProof, heq, verifyEquality_forged h hc, hne, ok_bind, pure_eq_ok_iff,
    forgedTaus, List.flatMap]
  rfl

theorem forged_consistent (nonRevocProof : Option (NonRevocProof C)) :
    checkSubProofParamsConsistency ⟨forgedPrimaryProof common cHash cred, nonRevocProof⟩ cred =
      .ok () := by
  rw [checkSubProofParamsConsistency_ok_iff]
  constructor
  · ext a
    simp [forgedPrimaryProof, forgedEqProof, HashMap.keys_tabulate]
  · ext predicate
    simp [forgedPrimaryProof, forgedNeProof, Function.comp_def]

-- Whoever knows the public key only, and proves nothing about the revocation.
def forgedSubProof (common : HashMap (Option BigNumber)) (cHash : BigNumber)
    (cred : VerifiableCredential C) : SubProof C where
  primaryProof := forgedPrimaryProof common cHash cred
  nonRevocProof := none

def forgery (env : Env) (common : HashMap (Option BigNumber)) : Strategy C where
  respond := forgedSubProof common
  tauList cred := (forgedTaus env common cred).map BigNumber.toBytes

theorem forgery_works (h : cred.Usable common) : (forgery env common).Works env common cred where
  consistent _ := forged_consistent none
  response _ _ ha := lookup_forgedM <| Finset.mem_union_right _ <| Finmap.mem_keys.mpr ha
  verifies _ hc₀ _ := ⟨[], _, rfl, verifyPrimaryProof_forged h hc₀, rfl⟩

-- The forged proof passes wherever any proof does.
theorem exists_forgery {self : ProofVerifier C}
    (h : ∀ cred ∈ self.credentials, cred.Usable self.commonAttributes) (env : Env) (nonce : Nonce) :
    ∃ (cHash : ℤ) (proof : Proof C), 0 ≤ cHash ∧ self.Accepts env proof nonce ∧
      proof.proofs = self.credentials.map (forgedSubProof self.commonAttributes cHash) :=
  ⟨_, _, getHashAsInt_nonneg env _,
    Strategy.accepts (fun cred hcred => forgery_works (h cred hcred)) nonce, rfl⟩

end Forgery
end Ursa
