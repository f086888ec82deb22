import Ursa.Cl.Theorems.FourSquares
import Ursa.Cl.Theorems.Hiding.Predicate
import Ursa.Cl.Theorems.PrimaryProof

namespace Ursa

open BigNumber UrsaCryptoResult ProofVerifier
open ClKey (RangeExponents)

variable {env : Env} {pPubKey : CredentialPrimaryPublicKey} {K : UnitKey pPubKey}

section Equality

variable {a : (ZMod pPubKey.n.natAbs)ˣ} {m : HashMap BigNumber} {aPrime e v m2 c : ℤ}

theorem computes_calcTeqAttr (hn : 1 < pPubKey.n.natAbs) (K : UnitKey pPubKey)
    (hr : k ∈ pPubKey.r) (hm : k ∈ m) {y : ℤ} {w : (ZMod pPubKey.n.natAbs)ˣ}
    (hy : (y : ZMod pPubKey.n.natAbs) = w) :
    Computes pPubKey.n (calcTeqAttr pPubKey m y k) (K.r k ^ exponents m k * w) := by
  obtain ⟨r, hr⟩ := Finmap.mem_iff.mp hr
  obtain ⟨x, hx⟩ := Finmap.mem_iff.mp hm
  rw [calcTeqAttr, hr, hx, okOrElse, okOrElse, ok_bind, ok_bind, exponents_eq hx]
  exact (computes_modExp hn (K.r_eq k r hr) x).bind fun _ hpower =>
    computes_modMul (ne_zero_of_one_lt hn) hpower hy

theorem computes_calcTeq (hn : 1 < pPubKey.n.natAbs) (K : UnitKey pPubKey)
    (ha : (aPrime : ZMod pPubKey.n.natAbs) = a) (hbases : ∀ k ∈ unrevealed, k ∈ pPubKey.r)
    (hm : ∀ k ∈ unrevealed, k ∈ m) (env : Env) (e v m2 : ℤ) :
    Computes pPubKey.n (calcTeq pPubKey env aPrime e v m m2 unrevealed)
      (K.represent a e v m2 (exponents m) unrevealed) := by
  have hn₀ := ne_zero_of_one_lt hn
  have hattrs := computes_foldlM (fun k => K.r k ^ exponents m k)
    (fun k hk _ _ hy => computes_calcTeqAttr hn K (hbases k <| (env.mem_hashOrder _ _).mp hk)
      (hm k <| (env.mem_hashOrder _ _).mp hk) hy) (computes_modExp hn ha e)
  have hs := hattrs.bind fun _ hy => (computes_modExp hn K.s_eq v).bind fun _ hpower =>
    computes_modMul hn₀ hpower hy
  have hrctxt := hs.bind fun _ hy => (computes_modExp hn K.rctxt_eq m2).bind fun _ hpower =>
    computes_modMul hn₀ hpower hy
  rw [prod_hashOrder env unrevealed, ← ClKey.attributes] at hrctxt
  have hrepresent : K.represent a e v m2 (exponents m) unrevealed =
      K.rctxt ^ m2 * (K.s ^ v * (K.attributes (exponents m) unrevealed * a ^ e)) := by
    rw [ClKey.represent]
    ac_rfl
  rw [hrepresent]
  simpa only [calcTeq, bind_assoc] using hrctxt

theorem computes_verifyRevealedAttr (hn : 1 < pPubKey.n.natAbs) (K : UnitKey pPubKey)
    (hr : entry.1 ∈ pPubKey.r) {y : ℤ} {w : (ZMod pPubKey.n.natAbs)ˣ}
    (hy : (y : ZMod pPubKey.n.natAbs) = w) :
    Computes pPubKey.n (verifyRevealedAttr pPubKey y entry) (K.r entry.1 ^ (entry.2 : ℤ) * w) := by
  obtain ⟨r, hr⟩ := Finmap.mem_iff.mp hr
  rw [verifyRevealedAttr, hr, okOrElse, ok_bind]
  exact (computes_modExp hn (K.r_eq _ r hr) _).bind fun _ hpower =>
    computes_modMul (ne_zero_of_one_lt hn) hpower hy

theorem computes_revealedFactor (hn : 1 < pPubKey.n.natAbs) (K : UnitKey pPubKey)
    (ha : (aPrime : ZMod pPubKey.n.natAbs) = a) {revealedAttrs : BTreeMap BigNumber}
    (hbases : ∀ k ∈ revealedAttrs, k ∈ pPubKey.r) :
    Computes pPubKey.n (modExp aPrime largeEStartValue pPubKey.n >>= fun rar =>
      revealedAttrs.iter.foldlM (verifyRevealedAttr pPubKey) rar)
      (revealedFactor K a revealedAttrs) := by
  have hattrs := computes_foldlM (fun entry : String × BigNumber => K.r entry.1 ^ (entry.2 : ℤ))
    (fun entry hentry _ _ hy => computes_verifyRevealedAttr hn K (hbases entry.1 <|
      Finmap.mem_of_lookup_eq_some <| BTreeMap.mem_iter.mp hentry) hy)
    (computes_modExp hn ha largeEStartValue)
  rwa [prod_iter revealedAttrs fun k x => K.r k ^ x, ← ClKey.attributes, mul_comm] at hattrs

theorem verifyEquality_ok (hn : 1 < pPubKey.n.natAbs) (K : UnitKey pPubKey)
    {proof : PrimaryEqualProof} (ha : (proof.aPrime : ZMod pPubKey.n.natAbs) = a)
    (hunrevealed : ∀ k ∈ ProofVerifier.unrevealedAttrs cs ncs spr, k ∈ pPubKey.r ∧ k ∈ proof.m)
    (hrevealed : ∀ k ∈ proof.revealedAttrs, k ∈ pPubKey.r) (env : Env) (c : ℤ) :
    ∃ tau, verifyEquality env pPubKey proof c cs ncs spr = .ok [tau] ∧
      Computes pPubKey.n (.ok tau) (K.signatureTau (K.z / revealedFactor K a proof.revealedAttrs) a
        proof.e proof.v proof.m2 (exponents proof.m) (ProofVerifier.unrevealedAttrs cs ncs spr)
        c) := by
  obtain ⟨t₁, ht₁, -, ht₁Cast⟩ := computes_calcTeq hn K ha (fun k hk => (hunrevealed k hk).1)
    (fun k hk => (hunrevealed k hk).2) env proof.e proof.v proof.m2
  obtain ⟨rar, hrar, -, hrarCast⟩ := computes_revealedFactor hn K ha hrevealed
  obtain ⟨x, hx, hrar⟩ := bind_eq_ok_iff.mp hrar
  obtain ⟨quotient, hquotient, -, hquotientCast⟩ := computes_modDiv hn K.z_eq hrarCast
  obtain ⟨inverse, hinverse, -, hinverseCast⟩ := computes_inverse hn hquotientCast
  obtain ⟨t₂, ht₂, -, ht₂Cast⟩ := computes_modExp hn hinverseCast c
  have htau := computes_modMul (ne_zero_of_one_lt hn) ht₁Cast ht₂Cast
  obtain ⟨tau, htauOk, -⟩ := id htau
  rw [htauOk, mul_comm, inv_zpow, ← ClKey.signatureTau] at htau
  refine ⟨tau, ?_, htau⟩
  simp only [verifyEquality, ht₁, hx, hrar, hquotient, hinverse, ht₂, htauOk, ok_bind,
    pure_eq_ok_iff]

-- What a signature on the attributes `attrs` satisfies.
structure Signed (K : UnitKey pPubKey) (c1 : PrimaryCredentialSignature) (m : String → ℤ)
    (attrs : Finset String) : Prop where
  e_ne_zero : c1.e ≠ 0
  equation : ∃ power, c1.a.modExp c1.e pPubKey.n = .ok power ∧
    (power : ZMod pPubKey.n.natAbs) * ↑(K.s ^ (c1.v : ℤ) * K.rctxt ^ (c1.m2 : ℤ) *
      K.attributes m attrs) = ↑K.z

-- The root is a unit, as its power is one.
theorem Signed.exists_unit {c1 : PrimaryCredentialSignature} {m : String → ℤ}
    (hn : 1 < pPubKey.n.natAbs) (h : Signed K c1 m attrs) :
    ∃ a : (ZMod pPubKey.n.natAbs)ˣ, (c1.a : ZMod pPubKey.n.natAbs) = a ∧
      K.z = K.represent a c1.e c1.v c1.m2 m attrs := by
  obtain ⟨power, hpower, hz⟩ := h.equation
  have hunit : IsUnit (power : ZMod pPubKey.n.natAbs) := by
    refine isUnit_of_mul_isUnit_left (y := ↑(K.s ^ (c1.v : ℤ) * K.rctxt ^ (c1.m2 : ℤ) *
      K.attributes m attrs)) ?_
    exact hz ▸ K.z.isUnit
  have hgcd := ((isUnit_modExp_iff hn hpower).mp hunit).resolve_left h.e_ne_zero
  obtain ⟨a, ha⟩ := ModArith.isUnit_cast_iff.mpr hgcd
  refine ⟨a, ha.symm, ?_⟩
  rw [modExp_unit hpower ha.symm, ← Units.val_mul] at hz
  rw [← Units.ext hz, ClKey.represent]
  ac_rfl

namespace ProofBuilder

variable {common : HashMap BigNumber} {c1 : PrimaryCredentialSignature} {values : CredentialValues}
variable {initProof : PrimaryEqualInitProof} {draws : EqProofDraws}

-- The randomized root, and the commitment to the blindings.
theorem initEqProof_ok (hn : 1 < pPubKey.n.natAbs) (K : UnitKey pPubKey)
    (ha : (c1.a : ZMod pPubKey.n.natAbs) = a)
    (hbases : ∀ k ∈ unrevealedAttrs cs ncs spr, k ∈ pPubKey.r) (env : Env)
    (common : HashMap BigNumber) (m2T : Option BigNumber) (draws : EqProofDraws) :
    ∃ initProof, initEqProof env common pPubKey c1 cs ncs spr m2T draws = .ok initProof ∧
      (initProof.aPrime : ZMod pPubKey.n.natAbs) = ↑(K.s ^ (draws.r.value : ℤ) * a) ∧
      Computes pPubKey.n (.ok initProof.t) (K.represent (K.s ^ (draws.r.value : ℤ) * a)
        initProof.eTilde initProof.vTilde initProof.m2Tilde (exponents initProof.mTilde)
        (unrevealedAttrs cs ncs spr)) := by
  obtain ⟨power, hpower, -, hpowerCast⟩ := computes_modExp hn K.s_eq draws.r.value
  obtain ⟨aPrime, haPrime, -, haPrimeCast⟩ := computes_modMul (ne_zero_of_one_lt hn) hpowerCast ha
  let mTilde := getMtilde env (unrevealedAttrs cs ncs spr) common draws.mTilde
  have ht := computes_calcTeq (m := mTilde) hn K haPrimeCast hbases
    (fun k hk => Finmap.mem_of_lookup_eq_some <| lookup_getMtilde hk) env draws.eTilde.value
    draws.vTilde.value (m2T.getD draws.m2Tilde.value)
  obtain ⟨t, htOk, -⟩ := id ht
  rw [htOk] at ht
  let initProof : PrimaryEqualInitProof :=
    { aPrime, t
      eTilde := draws.eTilde.value
      ePrime := c1.e - largeEStartValue
      vTilde := draws.vTilde.value
      vPrime := c1.v - c1.e * draws.r.value
      mTilde
      m2Tilde := m2T.getD draws.m2Tilde.value
      m2 := c1.m2 }
  refine ⟨initProof, ?_, haPrimeCast, ht⟩
  rw [initEqProof, hpower, ok_bind, haPrime, ok_bind, htOk, ok_bind]
  rfl

-- The answer to the challenge `c`, with the responses of all attributes as one map.
def equalAnswer (initProof : PrimaryEqualInitProof) (c : BigNumber) (cs : CredentialSchema)
    (ncs : NonCredentialSchema) (values : CredentialValues) (spr : SubProofRequest) :
    PrimaryEqualProof where
  revealedAttrs := HashMap.tabulate (BTreeSet.iter spr.revealedAttrs) values.exponents
  aPrime := initProof.aPrime
  e := c * initProof.ePrime + initProof.eTilde
  v := c * initProof.vPrime + initProof.vTilde
  m := HashMap.tabulate (unrevealedAttrs cs ncs spr).iter fun k =>
    c * values.exponents k + exponents initProof.mTilde k
  m2 := c * initProof.m2 + initProof.m2Tilde

theorem finalizeEqProof_ok (hm : ∀ k ∈ unrevealedAttrs cs ncs spr, k ∈ initProof.mTilde)
    (hvalues : ∀ k ∈ unrevealedAttrs cs ncs spr ∪ spr.revealedAttrs, k ∈ values.attrsValues)
    (c : ℤ) :
    finalizeEqProof initProof c cs ncs values spr =
      .ok (equalAnswer initProof c cs ncs values spr) := by
  have hrespond : (unrevealedAttrs cs ncs spr).iter.foldlM (respondAttr initProof c values) ∅ =
      .ok (equalAnswer initProof c cs ncs values spr).m := by
    refine foldlM_eq_foldl (fun k hk mHat => ?_) ∅
    have hk := BTreeSet.mem_iter.mp hk
    obtain ⟨mTilde, hmTilde⟩ := Finmap.mem_iff.mp <| hm k hk
    obtain ⟨value, hvalue⟩ := Finmap.mem_iff.mp <| hvalues k <| Finset.mem_union_left _ hk
    rw [respondAttr, hmTilde, hvalue, okOrElse, okOrElse, ok_bind, ok_bind,
      ← exponents_eq hmTilde, ← CredentialValues.exponents_eq hvalue]
    rfl
  have hreveal : (BTreeSet.iter spr.revealedAttrs).foldlM (revealAttr values) ∅ =
      .ok (equalAnswer initProof c cs ncs values spr).revealedAttrs := by
    refine foldlM_eq_foldl (fun k hk revealed => ?_) ∅
    obtain ⟨value, hvalue⟩ := Finmap.mem_iff.mp <| hvalues k <|
      Finset.mem_union_right _ <| BTreeSet.mem_iter.mp hk
    rw [revealAttr, hvalue, okOrElse, ok_bind, ← CredentialValues.exponents_eq hvalue]
    rfl
  simp only [finalizeEqProof, hrespond, hreveal, ok_bind]
  rfl

theorem lookup_equalAnswer_m (hk : k ∈ unrevealedAttrs cs ncs spr) :
    (equalAnswer initProof c cs ncs values spr).m.lookup k =
      some (c * values.exponents k + exponents initProof.mTilde k) := by
  rw [equalAnswer, HashMap.lookup_tabulate, if_pos (BTreeSet.mem_iter.mpr hk)]

theorem keys_equalAnswer_revealedAttrs :
    (equalAnswer initProof c cs ncs values spr).revealedAttrs.keys = spr.revealedAttrs := by
  ext k
  rw [equalAnswer, HashMap.keys_tabulate, List.mem_toFinset, BTreeSet.mem_iter]

theorem exponents_equalAnswer_revealedAttrs (hk : k ∈ spr.revealedAttrs) :
    exponents (equalAnswer initProof c cs ncs values spr).revealedAttrs k = values.exponents k := by
  refine exponents_eq ?_
  rw [equalAnswer, HashMap.lookup_tabulate, if_pos (BTreeSet.mem_iter.mpr hk)]

theorem unrevealedAttrs_verifier :
    ProofVerifier.unrevealedAttrs cs ncs spr = unrevealedAttrs cs ncs spr := by
  rw [ProofVerifier.unrevealedAttrs, unrevealedAttrs, Finset.union_comm]

-- What is left of the equation of the signature for the prover: the verifier computes the rest.
theorem div_revealedFactor {a : (ZMod pPubKey.n.natAbs)ˣ} {e v m2 r : ℤ}
    (hz : K.z = K.represent a e v m2 values.exponents (ncs.attrs ∪ cs.attrs))
    (hsub : spr.revealedAttrs ⊆ ncs.attrs ∪ cs.attrs) :
    K.z / revealedFactor K (K.s ^ r * a) (equalAnswer initProof c cs ncs values spr).revealedAttrs =
      K.represent (K.s ^ r * a) (e - largeEStartValue) (v - e * r) m2 values.exponents
        (unrevealedAttrs cs ncs spr) := by
  have hattrs : K.attributes (exponents (equalAnswer initProof c cs ncs values spr).revealedAttrs)
      spr.revealedAttrs = K.attributes values.exponents spr.revealedAttrs :=
    Finset.prod_congr rfl fun k hk => by rw [exponents_equalAnswer_revealedAttrs hk]
  have hunion : spr.revealedAttrs ∪ unrevealedAttrs cs ncs spr = ncs.attrs ∪ cs.attrs :=
    Finset.union_sdiff_of_subset hsub
  have hdisjoint : Disjoint spr.revealedAttrs (unrevealedAttrs cs ncs spr) := Finset.disjoint_sdiff
  rw [div_eq_iff_eq_mul', revealedFactor, keys_equalAnswer_revealedAttrs, hattrs,
    ← ClKey.represent_split hdisjoint, add_sub_cancel, hunion, ClKey.represent_randomize, hz]

-- The answer takes the verifier back to what the prover committed to.
theorem verifyEquality_equalAnswer (hn : 1 < pPubKey.n.natAbs) (K : UnitKey pPubKey)
    (hz : K.z = K.represent a c1.e c1.v c1.m2 values.exponents (ncs.attrs ∪ cs.attrs))
    (hbases : ∀ k ∈ ncs.attrs ∪ cs.attrs, k ∈ pPubKey.r)
    (hsub : spr.revealedAttrs ⊆ ncs.attrs ∪ cs.attrs)
    (hinit : initEqProof env common pPubKey c1 cs ncs spr m2T draws = .ok initProof)
    (haPrime : (initProof.aPrime : ZMod pPubKey.n.natAbs) = ↑(K.s ^ (draws.r.value : ℤ) * a))
    (ht : Computes pPubKey.n (.ok initProof.t) (K.represent (K.s ^ (draws.r.value : ℤ) * a)
      initProof.eTilde initProof.vTilde initProof.m2Tilde (exponents initProof.mTilde)
      (unrevealedAttrs cs ncs spr))) (env : Env) (c : ℤ) :
    verifyEquality env pPubKey (equalAnswer initProof c cs ncs values spr) c cs ncs spr =
      .ok [initProof.t] := by
  have hunrevealed : ∀ k ∈ ProofVerifier.unrevealedAttrs cs ncs spr,
      k ∈ pPubKey.r ∧ k ∈ (equalAnswer initProof c cs ncs values spr).m := by
    intro k hk
    rw [unrevealedAttrs_verifier] at hk
    exact ⟨hbases k <| Finset.sdiff_subset hk,
      Finmap.mem_of_lookup_eq_some <| lookup_equalAnswer_m hk⟩
  have hrevealed : ∀ k ∈ (equalAnswer initProof c cs ncs values spr).revealedAttrs,
      k ∈ pPubKey.r := by
    intro k hk
    rw [← Finmap.mem_keys, keys_equalAnswer_revealedAttrs] at hk
    exact hbases k <| hsub hk
  obtain ⟨tau, hok, htau⟩ := verifyEquality_ok hn K haPrime hunrevealed hrevealed env c
  have hresponse : ∀ k ∈ unrevealedAttrs cs ncs spr,
      exponents (equalAnswer initProof c cs ncs values spr).m k - exponents initProof.mTilde k =
        c * values.exponents k := by
    intro k hk
    rw [exponents_eq <| lookup_equalAnswer_m hk, add_sub_cancel_right]
  obtain ⟨-, hePrime, -, hvPrime, -, -, hm2⟩ := initEqProof_eq_ok hinit
  have he : (equalAnswer initProof c cs ncs values spr).e - initProof.eTilde =
      c * (c1.e - largeEStartValue) := hePrime ▸ add_sub_cancel_right _ _
  have hv : (equalAnswer initProof c cs ncs values spr).v - initProof.vTilde =
      c * (c1.v - c1.e * draws.r.value) := hvPrime ▸ add_sub_cancel_right _ _
  have hm2 : (equalAnswer initProof c cs ncs values spr).m2 - initProof.m2Tilde = c * c1.m2 :=
    hm2 ▸ add_sub_cancel_right _ _
  rw [unrevealedAttrs_verifier, ClKey.signatureTau_complete (div_revealedFactor hz hsub) he hv hm2
    hresponse] at htau
  have htaus := Except.ok.inj <| htau.unique ht
  rw [hok, htaus]

end ProofBuilder

end Equality

section Predicate

variable {u r t mTilde : HashMap BigNumber} {mj alpha c : ℤ} {isLess : Bool}
variable {T : String → (ZMod pPubKey.n.natAbs)ˣ}

theorem calcTne_canonical (h : calcTne pPubKey u r mj alpha t isLess = .ok tauList) :
    ∀ tau ∈ tauList, (0 : ℤ) ≤ tau ∧ tau < pPubKey.n.natAbs := by
  simp only [calcTne, bind_eq_ok_iff, okOrElse_eq_ok_iff, pure_eq_ok_iff] at h
  obtain ⟨roots, hroots, _, -, _, -, _, -, tTau, htTau, _, -, _, -, tau, htau, rfl⟩ := h
  have hroot : ∀ y ∈ roots, (0 : ℤ) ≤ y ∧ y < pPubKey.n.natAbs := by
    refine mapM_forall (fun i _ y hy => ?_) hroots
    simp only [calcTneRoot, bind_eq_ok_iff, okOrElse_eq_ok_iff] at hy
    obtain ⟨_, -, _, -, _, -, _, -, hy⟩ := hy
    exact modMul_canonical hy
  intro y hy
  simp only [List.mem_append, List.mem_cons, List.not_mem_nil, or_false] at hy
  obtain hy | rfl | rfl := hy
  · exact hroot y hy
  · exact modMul_canonical htTau
  · exact modMul_canonical htau

theorem withChallenge_canonical (h : withChallenge base c tau n = .ok y) :
    (0 : ℤ) ≤ y ∧ y < n.natAbs := by
  simp only [withChallenge, bind_eq_ok_iff] at h
  obtain ⟨_, -, _, -, h⟩ := h
  exact modMul_canonical h

theorem verifyNePredicate_canonical {proof : PrimaryPredicateInequalityProof}
    (h : verifyNePredicate pPubKey proof c = .ok taus) :
    ∀ tau ∈ taus, (0 : ℤ) ≤ tau ∧ tau < pPubKey.n.natAbs := by
  simp only [verifyNePredicate, bind_eq_ok_iff, pure_eq_ok_iff] at h
  obtain ⟨_, -, roots, hroots, _, -, _, -, _, -, _, -, tauDelta, htauDelta, _, -, tauProduct,
    htauProduct, rfl⟩ := h
  have hroot : ∀ y ∈ roots, (0 : ℤ) ≤ y ∧ y < pPubKey.n.natAbs := by
    refine mapM_forall (fun i _ y hy => ?_) hroots
    simp only [verifyNeRoot, bind_eq_ok_iff] at hy
    obtain ⟨_, -, _, -, hy⟩ := hy
    exact withChallenge_canonical hy
  intro y hy
  simp only [List.mem_append, List.mem_cons, List.not_mem_nil, or_false] at hy
  obtain hy | rfl | rfl := hy
  · exact hroot y hy
  · exact withChallenge_canonical htauDelta
  · exact withChallenge_canonical htauProduct

theorem withChallenge_ok {n base : ℤ} {b : (ZMod n.natAbs)ˣ} (hn : 1 < n.natAbs)
    (hb : (base : ZMod n.natAbs) = b) (c tau : ℤ) : ∃ y, withChallenge base c tau n = .ok y := by
  obtain ⟨power, hpower, -, hpowerCast⟩ := computes_modExp hn hb c
  obtain ⟨inverse, hinverse, -⟩ := computes_inverse hn hpowerCast
  obtain ⟨y, hy⟩ := modMul_ok (ne_zero_of_one_lt hn) inverse tau
  exact ⟨y, by rw [withChallenge, hpower, ok_bind, hinverse, ok_bind, hy]⟩

theorem directDelta_ok {delta : ℤ} {w : (ZMod pPubKey.n.natAbs)ˣ} (hn : 1 < pPubKey.n.natAbs)
    (hw : (delta : ZMod pPubKey.n.natAbs) = w) (isLess : Bool) :
    ∃ deltaPrime, directDelta isLess delta pPubKey.n = .ok deltaPrime := by
  cases isLess
  case true => exact inverse_ok_of_isUnit hn <| hw ▸ w.isUnit
  case false => exact ⟨delta, rfl⟩

theorem tneDefined_of_units (hn : 1 < pPubKey.n.natAbs) (K : UnitKey pPubKey)
    (hT : StandsFor pPubKey.n t T)
    (hroot : ∀ i < iteration, toString i ∈ u ∧ toString i ∈ r ∧ toString i ∈ t)
    (hdelta : "DELTA" ∈ r) (mj alpha : ℤ) (isLess : Bool) :
    TneDefined pPubKey u r t mj alpha isLess := by
  constructor
  case root =>
    intro i hi
    obtain ⟨hu, hr, ht⟩ := hroot i hi
    obtain ⟨curU, hu⟩ := Finmap.mem_iff.mp hu
    obtain ⟨curR, hr⟩ := Finmap.mem_iff.mp hr
    obtain ⟨curT, ht⟩ := Finmap.mem_iff.mp ht
    exact ⟨curU, curR, curT, hu, hr, ht, powDefined_of_unit hn K.z_eq _,
      powDefined_of_unit hn K.s_eq _, powDefined_of_unit hn (hT _ _ ht) _⟩
  case delta =>
    obtain ⟨rDelta, hrDelta⟩ := Finmap.mem_iff.mp hdelta
    exact ⟨rDelta, hrDelta, powDefined_of_unit hn K.s_eq _⟩
  case mj => exact powDefined_of_unit hn K.z_eq _
  case alpha => exact powDefined_of_unit hn K.s_eq _

-- With units for the key and for the commitments only a key that is missing makes the verifier
-- fail.
theorem verifyNePredicate_ok (hn : 1 < pPubKey.n.natAbs) (K : UnitKey pPubKey)
    {proof : PrimaryPredicateInequalityProof} (hT : StandsFor pPubKey.n proof.t T)
    (hroot : ∀ i < iteration, toString i ∈ proof.u ∧ toString i ∈ proof.r ∧ toString i ∈ proof.t)
    (hdelta : "DELTA" ∈ proof.r ∧ "DELTA" ∈ proof.t) (c : ℤ) :
    ∃ taus, verifyNePredicate pPubKey proof c = .ok taus := by
  obtain ⟨tDelta, htDelta⟩ := Finmap.mem_iff.mp hdelta.2
  obtain ⟨tauList, htauList⟩ := calcTne_ok (ne_zero_of_one_lt hn) <|
    tneDefined_of_units hn K hT hroot hdelta.1 proof.mj proof.alpha proof.predicate.isLess
  have hlength : tauList.length = iteration + 2 := by
    have hcast := congrArg List.length <| calcTne_eq_ok K hT htauList
    simpa using hcast
  have hindex : ∀ i < iteration + 2, ∃ tau, index tauList i = .ok tau := fun i hi =>
    ⟨_, index_eq_ok_iff.mpr <| List.getElem?_eq_getElem (hlength ▸ hi)⟩
  have hverify : ∀ i ∈ List.range iteration,
      ∃ y, verifyNeRoot pPubKey proof.t c tauList i = .ok y := by
    intro i hi
    have hlt := List.mem_range.mp hi
    obtain ⟨curT, ht⟩ := Finmap.mem_iff.mp (hroot i hlt).2.2
    obtain ⟨tau, htau⟩ := hindex i <| Nat.lt_add_right 2 hlt
    obtain ⟨y, hy⟩ := withChallenge_ok hn (hT _ _ ht) c tau
    exact ⟨y, by rw [verifyNeRoot, ht, okOrElse, ok_bind, htau, ok_bind, hy]⟩
  obtain ⟨roots, hroots⟩ := mapM_ok hverify
  obtain ⟨deltaPrime, hdeltaPrime⟩ := directDelta_ok hn (hT _ _ htDelta) proof.predicate.isLess
  have hdeltaPrimeCast := directDelta_eq_ok hdeltaPrime (hT _ _ htDelta)
  obtain ⟨bound, hbound, -, hboundCast⟩ :=
    computes_modExp hn K.z_eq proof.predicate.getDeltaPrime
  have hfactor : ((bound * deltaPrime : ℤ) : ZMod pPubKey.n.natAbs) =
      ↑(K.z ^ proof.predicate.getDeltaPrime *
        if proof.predicate.isLess then (T "DELTA")⁻¹ else T "DELTA") := by
    rw [Int.cast_mul, hboundCast, hdeltaPrimeCast, Units.val_mul]
  obtain ⟨tau₄, htau₄⟩ := hindex iteration (by decide)
  obtain ⟨tau₅, htau₅⟩ := hindex (iteration + 1) (by decide)
  obtain ⟨tauDelta, htauDelta⟩ := withChallenge_ok hn hfactor c tau₄
  obtain ⟨tauProduct, htauProduct⟩ := withChallenge_ok hn (hT _ _ htDelta) c tau₅
  refine ⟨roots ++ [tauDelta, tauProduct], ?_⟩
  simp only [verifyNePredicate, htauList, hroots, htDelta, okOrElse, hdeltaPrime, hbound, htau₄,
    htauDelta, htau₅, htauProduct, ok_bind, pure_eq_ok_iff]

namespace ProofBuilder

variable {values : CredentialValues} {predicate : Predicate} {draws : NeProofDraws}
variable {initProof : PrimaryPredicateInequalityInitProof}

-- The keys of an iteration map are the numbers of the iterations.
theorem eq_of_lookup_iterationMap {f : ℕ → BigNumber}
    (h : (iterationMap f).lookup k = some x) : ∃ i < iteration, k = toString i ∧ x = f i := by
  have hfold : ∀ (l : List ℕ) (m : HashMap BigNumber),
      (l.foldl (fun m i => m.insert (toString i) (f i)) m).lookup k = some x →
      (∃ i ∈ l, k = toString i ∧ x = f i) ∨ m.lookup k = some x := by
    intro l
    induction l
    case nil => exact fun m hm => .inr hm
    case cons i l hi =>
      intro m hm
      obtain ⟨j, hj, hjk⟩ | hlookup := hi _ hm
      · exact .inl ⟨j, .tail _ hj, hjk⟩
      · obtain rfl | hne := eq_or_ne k (toString i)
        · rw [Finmap.lookup_insert] at hlookup
          exact .inl ⟨i, .head _, rfl, (Option.some.inj hlookup).symm⟩
        · exact .inr <| Finmap.lookup_insert_of_ne m hne ▸ hlookup
  obtain ⟨i, hi, hk⟩ | hlookup := hfold _ _ h
  · exact ⟨i, List.mem_range.mp hi, hk⟩
  · cases hlookup

-- The unit that the commitment under a key stands for: to a root, or to the difference.
def commitmentUnit (K : UnitKey pPubKey) (u r : HashMap BigNumber) (delta : ℤ) (k : String) :
    (ZMod pPubKey.n.natAbs)ˣ :=
  if k = "DELTA" then K.commit delta (exponents r "DELTA")
  else K.commit (exponents u k) (exponents r k)

-- What `initNeProof` commits to, for the value of an attribute and the blinding of its response.
structure CommitsPredicate (K : UnitKey pPubKey) (values : CredentialValues)
    (predicate : Predicate) (mTilde : HashMap BigNumber)
    (initProof : PrimaryPredicateInequalityInitProof) (attrValue : Int32) (mj : ℤ) : Prop where
  value : ∃ value, values.attrsValues.lookup predicate.attrName = some value ∧
    parseI32 value.value predicate.attrName = .ok attrValue
  roots : fourSquares (predicate.getDelta attrValue) = .ok initProof.u
  blinding : mTilde.lookup predicate.attrName = some mj
  root : ∀ i < iteration, toString i ∈ initProof.t
  delta : "DELTA" ∈ initProof.t
  standsFor : StandsFor pPubKey.n initProof.t
    (commitmentUnit K initProof.u initProof.r (predicate.getDelta attrValue).toInt)
  tauList : calcTne pPubKey initProof.uTilde initProof.rTilde mj initProof.alphaTilde initProof.t
    predicate.isLess = .ok initProof.tauList

theorem initNeProof_commits (hn : 1 < pPubKey.n.natAbs) (K : UnitKey pPubKey)
    (h : initNeProof pPubKey mTilde values predicate draws = .ok initProof) :
    ∃ attrValue mj, CommitsPredicate K values predicate mTilde initProof attrValue mj := by
  obtain ⟨-, hdraws, hrDelta, -⟩ := initNeProof_eq_ok h
  simp only [initNeProof, bind_eq_ok_iff, okOrElse_eq_ok_iff] at h
  obtain ⟨value, hvalue, attrValue, hparse, h⟩ := h
  split at h
  case isTrue => cases h
  case isFalse =>
    simp only [bind_eq_ok_iff, okOrElse_eq_ok_iff, pure_eq_ok_iff] at h
    obtain ⟨u, hu, roots, hroots, tDelta, htDelta, mj, hmj, tauList, htauList, rfl⟩ := h
    refine ⟨attrValue, mj, ⟨⟨value, hvalue, hparse⟩, hu, hmj, fun i hi => ?_, ?_, ?_, htauList⟩⟩
    case refine_1 =>
      rw [Finmap.mem_insert]
      exact .inr <| Finmap.mem_of_lookup_eq_some <| lookup_iterationMap _ hi
    case refine_2 => exact Finmap.mem_insert.mpr <| .inl rfl
    case refine_3 =>
      intro k x hx
      obtain rfl | hne := eq_or_ne k "DELTA"
      · rw [Finmap.lookup_insert] at hx
        obtain rfl := Option.some.inj hx
        have hcommit := computes_getPedersenCommitment hn K.z_eq K.s_eq
          (predicate.getDelta attrValue).toInt draws.rDelta.value
        rw [htDelta] at hcommit
        rw [hcommit.cast, commitmentUnit, if_pos rfl, exponents_eq hrDelta, ClKey.commit]
      · rw [Finmap.lookup_insert_of_ne _ hne] at hx
        obtain ⟨i, hi, rfl, rfl⟩ := eq_of_lookup_iterationMap hx
        obtain ⟨y, hget, hy⟩ := getElem?_of_mapM_range hroots hi
        obtain ⟨curU, hcurU, hy⟩ := bind_eq_ok_iff.mp hy
        rw [okOrElse_eq_ok_iff] at hcurU
        have hcommit := computes_getPedersenCommitment hn K.z_eq K.s_eq curU (draws.r i).value
        rw [hy] at hcommit
        have hyi : roots.getD i 0 = y := by rw [List.getD, hget]; rfl
        rw [hyi, hcommit.cast, commitmentUnit, if_neg hne, exponents_eq hcurU,
          exponents_eq (hdraws i hi).1, ClKey.commit]

theorem finalizeNeProof_statement {eqProof : PrimaryEqualProof}
    (h : finalizeNeProof c initProof eqProof = .ok proof) :
    eqProof.m.lookup initProof.predicate.attrName = some proof.mj ∧ proof.t = initProof.t ∧
      proof.predicate = initProof.predicate := by
  simp only [finalizeNeProof, bind_eq_ok_iff, okOrElse_eq_ok_iff, pure_eq_ok_iff] at h
  obtain ⟨_, -, _, -, _, -, mj, hmj, rfl⟩ := h
  exact ⟨hmj, rfl, rfl⟩

theorem deltaPredicate_of_nonneg {delta : ℤ} (h : 0 ≤ delta) :
    deltaPredicate delta isLess = if isLess then -delta else delta := by
  unfold deltaPredicate setNegative
  split
  · rw [if_pos rfl, Int.natAbs_of_nonneg h]
  · rfl

-- The secrets behind the responses for a predicate.
def secretExponents (initProof : PrimaryPredicateInequalityInitProof) (x : ℤ) : RangeExponents where
  u := exponent initProof.u
  r := exponent initProof.r
  mj := x
  rho := if initProof.predicate.isLess then -exponents initProof.r "DELTA"
    else exponents initProof.r "DELTA"
  alpha := productSecret (exponent initProof.u) (exponent initProof.r)
    (exponents initProof.r "DELTA")

theorem sumOfSquares_secretExponents
    (h : fourSquares delta = .ok initProof.u) :
    (secretExponents initProof x).sumOfSquares iteration = delta.toInt := by
  obtain ⟨r0, r1, r2, r3, hu, hsum⟩ := fourSquares_roots h
  have hlookup : exponent initProof.u 0 = r0 ∧ exponent initProof.u 1 = r1 ∧
      exponent initProof.u 2 = r2 ∧ exponent initProof.u 3 = r3 := by
    simp only [exponent, exponents, hu]
    refine ⟨?_, ?_, ?_, ?_⟩ <;> rfl
  obtain ⟨h0, h1, h2, h3⟩ := hlookup
  rw [sumOfSquares_iteration, ← hsum]
  simp only [secretExponents, h0, h1, h2, h3]

theorem opens_secretExponents {attrValue : Int32}
    (hdelta : (predicate.getDelta attrValue).toInt = predicate.distance x)
    (hpredicate : initProof.predicate = predicate)
    (h : CommitsPredicate K values predicate mTilde initProof attrValue mj) :
    let T := commitmentUnit K initProof.u initProof.r (predicate.getDelta attrValue).toInt
    K.Opens (fun i => T (toString i)) (T "DELTA") (boundFactor K predicate (T "DELTA"))
      (secretExponents initProof x) iteration := by
  intro T
  have hroots : ∀ i < iteration, T (toString i) =
      K.commit ((secretExponents initProof x).u i) ((secretExponents initProof x).r i) :=
    fun i hi => if_neg <| toString_ne_delta hi
  have hT : T "DELTA" = K.commit (predicate.distance x) (exponents initProof.r "DELTA") := by
    rw [← hdelta]
    exact if_pos rfl
  refine ⟨hroots, ?_, ?_⟩
  case refine_1 =>
    rw [boundFactor, hT, Predicate.distance, secretExponents, hpredicate]
    split
    case isTrue => rw [ClKey.zpow_mul_commit_inv, sub_sub_cancel]
    case isFalse => rw [ClKey.zpow_mul_commit, add_sub_cancel]
  case refine_2 =>
    have halpha : (secretExponents initProof x).alpha +
        (secretExponents initProof x).sumOfProducts iteration = exponents initProof.r "DELTA" := by
      simp only [secretExponents, productSecret, RangeExponents.sumOfProducts, mul_comm,
        sub_add_cancel]
    rw [ClKey.productTau_eq_commit hroots, sumOfSquares_secretExponents h.roots, halpha, hdelta, hT]

theorem scale_secretExponents {mj : ℤ} {eqProof : PrimaryEqualProof} (hc : 0 ≤ c)
    (hinit : initNeProof pPubKey mTilde values predicate draws = .ok initProof)
    (hm : eqProof.m.lookup predicate.attrName = some (c * x + mj))
    (hfin : finalizeNeProof c initProof eqProof = .ok proof) :
    RangeExponents.Scale iteration c (neExponents proof)
      (rangeExponents initProof.uTilde initProof.rTilde mj initProof.alphaTilde predicate.isLess)
      (secretExponents initProof x) := by
  obtain ⟨-, -, hrDelta, hrTildeDelta, -, hpredicate⟩ := initNeProof_eq_ok hinit
  obtain ⟨hresponses, hdelta, halpha⟩ := finalizeNeProof_eq_ok hfin
  obtain ⟨hmj, -, hproofPredicate⟩ := finalizeNeProof_statement hfin
  rw [hpredicate] at hmj hproofPredicate
  constructor
  case u =>
    intro i hi
    exact sub_eq_iff_eq_add.mpr <| exponents_eq (hresponses i hi).1
  case r =>
    intro i hi
    exact sub_eq_iff_eq_add.mpr <| exponents_eq (hresponses i hi).2
  case mj =>
    exact sub_eq_iff_eq_add.mpr <| Option.some.inj <| hmj.symm.trans hm
  case rho =>
    have hr₀ : (0 : ℤ) ≤ exponents initProof.r "DELTA" :=
      exponents_eq hrDelta ▸ draws.rDelta.value_nonneg
    have hrTilde₀ : (0 : ℤ) ≤ exponents initProof.rTilde "DELTA" :=
      exponents_eq hrTildeDelta ▸ draws.rTildeDelta.value_nonneg
    have hresponse₀ : 0 ≤ c * exponents initProof.r "DELTA" + exponents initProof.rTilde "DELTA" :=
      add_nonneg (mul_nonneg hc hr₀) hrTilde₀
    simp only [neExponents, rangeExponents, secretExponents, hproofPredicate, hpredicate,
      exponents_eq hdelta, deltaPredicate_of_nonneg hresponse₀, deltaPredicate_of_nonneg hrTilde₀]
    split <;> ring
  case alpha =>
    exact sub_eq_iff_eq_add.mpr halpha

-- The answer for a predicate takes the verifier back to what the prover committed to.
theorem verifyNePredicate_finalize {mj : ℤ} {eqProof : PrimaryEqualProof}
    (hn : 1 < pPubKey.n.natAbs) (K : UnitKey pPubKey) (hc : 0 ≤ c)
    (hinit : initNeProof pPubKey mTilde values predicate draws = .ok initProof)
    (hvalue : values.attrsValues.lookup predicate.attrName = some value)
    (hsatisfied : predicate.Satisfied value.value)
    (hmTilde : mTilde.lookup predicate.attrName = some mj)
    (hm : eqProof.m.lookup predicate.attrName = some (c * value.value + mj))
    (hfin : finalizeNeProof c initProof eqProof = .ok proof) :
    verifyNePredicate pPubKey proof c = .ok initProof.tauList := by
  obtain ⟨attrValue, mj', hcommits⟩ := initNeProof_commits hn K hinit
  obtain rfl := Option.some.inj <| hmTilde.symm.trans hcommits.blinding
  obtain ⟨x, hx, hparse⟩ := hcommits.value
  obtain rfl := Option.some.inj <| hvalue.symm.trans hx
  have hattr : attrValue = Int32.ofInt value.value := by
    unfold parseI32 at hparse
    split at hparse
    case isTrue => exact (Except.ok.inj hparse).symm
    case isFalse => cases hparse
  have hdelta : (predicate.getDelta attrValue).toInt = predicate.distance value.value :=
    hattr ▸ Predicate.toInt_getDelta hsatisfied
  obtain ⟨-, hdraws, hrDelta, -, -, hpredicate⟩ := initNeProof_eq_ok hinit
  obtain ⟨hresponses, hresponseDelta, -⟩ := finalizeNeProof_eq_ok hfin
  obtain ⟨-, ht, hproofPredicate⟩ := finalizeNeProof_statement hfin
  have hT := ht ▸ hcommits.standsFor
  obtain ⟨taus, htaus⟩ := verifyNePredicate_ok hn K hT (fun i hi =>
    ⟨Finmap.mem_of_lookup_eq_some (hresponses i hi).1,
      Finmap.mem_of_lookup_eq_some (hresponses i hi).2, ht ▸ hcommits.root i hi⟩)
    ⟨Finmap.mem_of_lookup_eq_some hresponseDelta, ht ▸ hcommits.delta⟩ c
  have hcast := verifyNePredicate_eq_ok K hT htaus
  rw [hproofPredicate, hpredicate, ClKey.rangeTaus_complete
    (opens_secretExponents hdelta hpredicate hcommits)
    (scale_secretExponents hc hinit hm hfin)] at hcast
  have hcommitted := calcTne_eq_ok K hcommits.standsFor hcommits.tauList
  rw [htaus, residues_unique (verifyNePredicate_canonical htaus)
    (calcTne_canonical hcommits.tauList) (hcast.trans hcommitted.symm)]

end ProofBuilder

end Predicate

section Primary

variable {cs : CredentialSchema} {ncs : NonCredentialSchema} {spr : SubProofRequest}
variable {c1 : PrimaryCredentialSignature} {values : CredentialValues} {c : ℤ}

-- When a request can be answered: there is a signature on the values of all attributes of both
-- schemas, and the values satisfy what is asked for.
structure Answerable (K : UnitKey pPubKey) (c1 : PrimaryCredentialSignature)
    (values : CredentialValues) (cs : CredentialSchema) (ncs : NonCredentialSchema)
    (spr : SubProofRequest) : Prop where
  signed : Signed K c1 values.exponents (ncs.attrs ∪ cs.attrs)
  bases : ∀ k ∈ ncs.attrs ∪ cs.attrs, k ∈ pPubKey.r
  keys : values.attrsValues.keys = ncs.attrs ∪ cs.attrs
  revealed : spr.revealedAttrs ⊆ cs.attrs
  predicates : ∀ p ∈ spr.predicates, p.attrName ∈ cs.attrs \ spr.revealedAttrs ∧
    p.Satisfied (values.exponents p.attrName)

namespace Answerable

variable (h : Answerable K c1 values cs ncs spr)

include h

theorem mem_values (hk : k ∈ ncs.attrs ∪ cs.attrs) : k ∈ values.attrsValues :=
  Finmap.mem_keys.mp <| h.keys ▸ hk

theorem revealed_subset : spr.revealedAttrs ⊆ ncs.attrs ∪ cs.attrs :=
  h.revealed.trans Finset.subset_union_right

theorem mem_unrevealed {p : Predicate} (hp : p ∈ spr.predicates) :
    p.attrName ∈ ProofBuilder.unrevealedAttrs cs ncs spr :=
  Finset.sdiff_subset_sdiff Finset.subset_union_right le_rfl (h.predicates p hp).1

theorem exists_value {p : Predicate} (hp : p ∈ spr.predicates) : ∃ value,
    values.attrsValues.lookup p.attrName = some value ∧ p.Satisfied value.value := by
  obtain ⟨value, hvalue⟩ := Finmap.mem_iff.mp <|
    h.mem_values <| Finset.sdiff_subset <| h.mem_unrevealed hp
  exact ⟨value, hvalue, CredentialValues.exponents_eq hvalue ▸ (h.predicates p hp).2⟩

end Answerable

namespace ProofBuilder

theorem parseI32_toInt (a : Int32) (attrName : String) : parseI32 a.toInt attrName = .ok a := by
  rw [parseI32, if_pos ⟨a.le_toInt, a.toInt_lt⟩, Int32.ofInt_toInt]

-- With a key and a blinding, the sign of the difference decides.
theorem initNeProof_ok_iff (hn : 1 < pPubKey.n.natAbs) (hs : Int.gcd pPubKey.s pPubKey.n = 1)
    {p : Predicate} {a : Int32} (hvalue : values.attrsValues.lookup p.attrName = some value)
    (ha : value.value = a.toInt) (hmTilde : mTilde.lookup p.attrName = some mj)
    (hmj : (0 : ℤ) ≤ mj) (draws : NeProofDraws) :
    (∃ initProof, initNeProof pPubKey mTilde values p draws = .ok initProof) ↔
      0 ≤ (p.getDelta a).toInt := by
  have hparse : parseI32 value.value p.attrName = .ok a := ha ▸ parseI32_toInt a _
  constructor
  case mp =>
    rintro ⟨initProof, h⟩
    simp only [initNeProof, hvalue, okOrElse, hparse, ok_bind, ite_error_eq_ok_iff, not_lt] at h
    exact h.left
  case mpr =>
    intro hdelta
    let run : PredicateRun :=
      { pPubKey, mTilde, values
        predicate := p
        eqProof :=
          { revealedAttrs := ∅
            aPrime := 0
            e := 0
            v := 0
            m := mTilde
            m2 := 0 } }
    have hprovable : run.Provable :=
      { n := hn
        s := hs
        value := ⟨value, a, hvalue, hparse, hdelta⟩
        mTilde := ⟨mj, hmTilde, hmj⟩
        response := Finmap.mem_of_lookup_eq_some hmTilde }
    exact hprovable.initNeProof_ok draws

theorem initNeProof_ok (hn : 1 < pPubKey.n.natAbs) (K : UnitKey pPubKey) {p : Predicate}
    (hvalue : values.attrsValues.lookup p.attrName = some value) (hsatisfied : p.Satisfied value.value)
    (hmTilde : mTilde.lookup p.attrName = some mj) (hmj : (0 : ℤ) ≤ mj) (draws : NeProofDraws) :
    ∃ initProof, initNeProof pPubKey mTilde values p draws = .ok initProof := by
  have hs := ModArith.isUnit_cast_iff.mp <| K.s_eq ▸ K.s.isUnit
  have ha := Predicate.toInt_ofInt hsatisfied.le_value hsatisfied.value_lt
  rw [initNeProof_ok_iff hn hs hvalue ha.symm hmTilde hmj draws,
    Predicate.toInt_getDelta hsatisfied]
  exact (Predicate.distance_nonneg_iff hsatisfied.bound).mpr hsatisfied.holds

theorem exists_blinding {common : HashMap BigNumber} {draws : String → BnRand largeMVect}
    (hcommon : ∀ k x, common.lookup k = some x → (0 : ℤ) ≤ x)
    (hk : k ∈ unrevealedAttrs cs ncs spr) :
    ∃ x, (getMtilde env (unrevealedAttrs cs ncs spr) common draws).lookup k = some x ∧
      (0 : ℤ) ≤ x := by
  refine ⟨_, lookup_getMtilde hk, ?_⟩
  cases hx : common.lookup k
  case none => exact (draws k).value_nonneg
  case some x => exact hcommon k x hx

theorem initNeProofs_ok (hn : 1 < pPubKey.n.natAbs) (K : UnitKey pPubKey)
    (h : Answerable K c1 values cs ncs spr)
    (hblinding : ∀ k ∈ unrevealedAttrs cs ncs spr, ∃ x, mTilde.lookup k = some x ∧ (0 : ℤ) ≤ x)
    (draws : Predicate → NeProofDraws) :
    ∃ neProofs, (BTreeSet.iter spr.predicates).mapM
      (fun p => initNeProof pPubKey mTilde values p (draws p)) = .ok neProofs := by
  refine mapM_ok fun p hp => ?_
  have hp := BTreeSet.mem_iter.mp hp
  obtain ⟨value, hvalue, hsatisfied⟩ := h.exists_value hp
  obtain ⟨mj, hmj, hmj₀⟩ := hblinding _ <| h.mem_unrevealed hp
  exact initNeProof_ok hn K hvalue hsatisfied hmj hmj₀ (draws p)

-- The inequality proofs of a request, in the order of the predicates.
theorem finalizeNeProofs_ok (hn : 1 < pPubKey.n.natAbs) (K : UnitKey pPubKey)
    (h : Answerable K c1 values cs ncs spr) {eqProof : PrimaryEqualInitProof}
    (hblinding : ∀ k ∈ unrevealedAttrs cs ncs spr, k ∈ eqProof.mTilde)
    {draws : Predicate → NeProofDraws} {neProofs : List PrimaryPredicateInequalityInitProof}
    (hneProofs : (BTreeSet.iter spr.predicates).mapM
      (fun p => initNeProof pPubKey eqProof.mTilde values p (draws p)) = .ok neProofs)
    (hc : 0 ≤ c) : ∃ proofs,
      neProofs.mapM (finalizeNeProof c · (equalAnswer eqProof c cs ncs values spr)) = .ok proofs ∧
      proofs.mapM (verifyNePredicate pPubKey · c) = .ok (neProofs.map (·.tauList)) ∧
      proofs.map (·.predicate) = BTreeSet.iter spr.predicates := by
  have hinit : ∀ ne ∈ neProofs, ∃ p ∈ spr.predicates,
      initNeProof pPubKey eqProof.mTilde values p (draws p) = .ok ne :=
    mapM_forall (fun p hp _ hne => ⟨p, BTreeSet.mem_iter.mp hp, hne⟩) hneProofs
  have hfinalize : ∀ ne ∈ neProofs, ∃ proof,
      finalizeNeProof c ne (equalAnswer eqProof c cs ncs values spr) = .ok proof := by
    intro ne hne
    obtain ⟨p, hp, hne⟩ := hinit ne hne
    exact finalizeNeProof_ok hne <|
      Finmap.mem_of_lookup_eq_some <| lookup_equalAnswer_m <| h.mem_unrevealed hp
  obtain ⟨proofs, hproofs⟩ := mapM_ok hfinalize
  refine ⟨proofs, hproofs, ?_, ?_⟩
  case refine_1 =>
    refine mapM_mapM (fun ne hne proof hproof => ?_) hproofs
    obtain ⟨p, hp, hne⟩ := hinit ne hne
    obtain ⟨value, hvalue, hsatisfied⟩ := h.exists_value hp
    obtain ⟨mj, hmj⟩ := Finmap.mem_iff.mp <| hblinding _ <| h.mem_unrevealed hp
    refine verifyNePredicate_finalize hn K hc hne hvalue hsatisfied hmj ?_ hproof
    rw [lookup_equalAnswer_m <| h.mem_unrevealed hp, CredentialValues.exponents_eq hvalue,
      exponents_eq hmj]
  case refine_2 =>
    rw [mapM_map (·.predicate) (·.predicate)
      (fun ne _ proof hproof => (finalizeNeProof_statement hproof).2.2) hproofs,
      mapM_map (·.predicate) id
        (fun p _ ne hne => (initNeProof_eq_ok hne).2.2.2.2.2) hneProofs, List.map_id]

-- A proof that the verifier of the primary part takes back to `tauList`.
structure VerifiesPrimary (initProof : PrimaryInitProof) (pPubKey : CredentialPrimaryPublicKey)
    (c : BigNumber) (cs : CredentialSchema) (ncs : NonCredentialSchema) (values : CredentialValues)
    (spr : SubProofRequest) (proof : PrimaryProof) : Prop where
  verify : ∀ env, ∃ taus, verifyPrimaryProof env pPubKey c proof cs ncs spr = .ok taus ∧
    taus.map BigNumber.toBytes = initProof.asTauList
  revealed : proof.eqProof.revealedAttrs.keys = spr.revealedAttrs
  predicates : (proof.neProofs.map (·.predicate)).toFinset = spr.predicates
  m : ∀ k ∈ unrevealedAttrs cs ncs spr, proof.eqProof.m.lookup k =
    some (c * values.exponents k + exponents initProof.eqProof.mTilde k)

theorem primaryProof_complete (hn : 1 < pPubKey.n.natAbs) (K : UnitKey pPubKey)
    (h : Answerable K c1 values cs ncs spr) (env : Env) {common : HashMap BigNumber}
    (hcommon : ∀ k x, common.lookup k = some x → (0 : ℤ) ≤ x) (m2T : Option BigNumber)
    (eqDraws : EqProofDraws) (neDraws : Predicate → NeProofDraws) :
    ∃ initProof, initPrimaryProof env common pPubKey c1 values cs ncs spr m2T eqDraws neDraws =
        .ok initProof ∧
      initProof.eqProof.mTilde =
        getMtilde env (unrevealedAttrs cs ncs spr) common eqDraws.mTilde ∧
      ∀ c : ℤ, 0 ≤ c → ∃ proof, finalizePrimaryProof initProof c cs ncs values spr = .ok proof ∧
        VerifiesPrimary initProof pPubKey c cs ncs values spr proof := by
  obtain ⟨a, ha, hz⟩ := h.signed.exists_unit hn
  have hbases : ∀ k ∈ unrevealedAttrs cs ncs spr, k ∈ pPubKey.r :=
    fun k hk => h.bases k <| Finset.sdiff_subset hk
  obtain ⟨eqProof, heq, haPrime, ht⟩ := initEqProof_ok hn K ha hbases env common m2T eqDraws
  obtain ⟨-, -, -, -, hmTilde, -⟩ := initEqProof_eq_ok heq
  have hblinding : ∀ k ∈ unrevealedAttrs cs ncs spr,
      ∃ x, eqProof.mTilde.lookup k = some x ∧ (0 : ℤ) ≤ x :=
    fun k hk => hmTilde ▸ exists_blinding hcommon hk
  have hmem : ∀ k ∈ unrevealedAttrs cs ncs spr, k ∈ eqProof.mTilde := by
    intro k hk
    obtain ⟨x, hx, -⟩ := hblinding k hk
    exact Finmap.mem_of_lookup_eq_some hx
  obtain ⟨neProofs, hneProofs⟩ := initNeProofs_ok hn K h hblinding neDraws
  refine ⟨⟨eqProof, neProofs⟩, ?_, hmTilde, fun c hc => ?_⟩
  case refine_1 =>
    rw [initPrimaryProof, heq, ok_bind, hneProofs, ok_bind]
    rfl
  case refine_2 =>
    obtain ⟨proofs, hproofs, hverify, hpredicates⟩ :=
      finalizeNeProofs_ok hn K h hmem hneProofs hc
    have hfinalize := finalizeEqProof_ok hmem
      (fun k hk => h.mem_values <| Finset.union_subset Finset.sdiff_subset h.revealed_subset hk) c
    refine ⟨⟨equalAnswer eqProof c cs ncs values spr, proofs⟩, ?_, ?_⟩
    case refine_1 =>
      rw [finalizePrimaryProof, hfinalize, ok_bind, hproofs, ok_bind]
      rfl
    case refine_2 =>
      constructor
      case verify =>
        intro env
        refine ⟨eqProof.t :: (neProofs.map (·.tauList)).flatten, ?_, ?_⟩
        · rw [verifyPrimaryProof, verifyEquality_equalAnswer hn K hz h.bases h.revealed_subset heq
            haPrime ht env c, ok_bind, hverify, ok_bind]
          rfl
        · simp [PrimaryInitProof.asTauList, PrimaryEqualInitProof.asTauList, List.map_flatten,
            List.flatMap_def, Function.comp_def]
      case revealed => exact keys_equalAnswer_revealedAttrs
      case predicates =>
        ext p
        rw [hpredicates, List.mem_toFinset, BTreeSet.mem_iter]
      case m => exact fun k hk => lookup_equalAnswer_m hk

end ProofBuilder

end Primary

end Ursa
