import Ursa.Cl.Prover
import Ursa.Cl.Theorems.Helpers
import Ursa.Math.StatDist

namespace Ursa

open BigNumber UrsaCryptoResult StatDist

variable {C : Curve} {env : Env}

theorem BnRand.uniform_value : Uniform (BnRand.value : BnRand size → ℤ) := by
  ext x
  simp only [Finset.mem_image, Finset.mem_univ, true_and, Finset.mem_Ico, Fintype.card_fin]
  constructor
  case mp =>
    rintro ⟨draw, rfl⟩
    exact ⟨Int.natCast_nonneg _, Int.ofNat_lt.mpr draw.isLt⟩
  case mpr =>
    rintro ⟨hx, hlt⟩
    refine ⟨⟨x.toNat, by omega⟩, ?_⟩
    exact Int.toNat_of_nonneg hx

theorem BnRand.value_le (draw : BnRand size) : (draw.value : ℤ) ≤ 2 ^ size :=
  calc (draw.value : ℤ)
    _ ≤ (2 ^ size : ℕ) := Int.ofNat_le.mpr draw.isLt.le
    _ = 2 ^ size       := by rw [Nat.cast_pow, Nat.cast_ofNat]

theorem BnRand.value_nonneg (draw : BnRand size) : (0 : ℤ) ≤ draw.value :=
  Int.natCast_nonneg _

theorem UrsaCryptoResult.ok_injective : Function.Injective (Except.ok : α → UrsaCryptoResult α) :=
  fun _ _ h => Except.ok.inj h

-- A response `c * x + draw` in a distribution over the draw.
theorem BnRand.mask_le_iff {c : ℤ} {reveal : ℤ → α} (hr : Function.Injective reveal) {x y : ℤ} :
    statDist (drawn fun draw : BnRand size => reveal (c * x + draw.value))
        (drawn fun draw : BnRand size => reveal (c * y + draw.value)) ≤ 1 / 2 ^ 78 ↔
      2 ^ 78 * (c * x - c * y).natAbs ≤ 2 ^ size := by
  rw [statDist_mask_le_iff BnRand.uniform_value hr _ _ (by decide), Fintype.card_fin]

namespace ProofBuilder

section Blindings

variable {unrevealed : Finset String}

theorem lookup_foldl_getMtilde (draws : String → BnRand largeMVect) (l : List String)
    (m : HashMap BigNumber) (a : String) :
    (l.foldl (fun m attr => if attr ∈ m then m else m.insert attr (draws attr).value) m).lookup a =
      if a ∈ l then some ((m.lookup a).getD (draws a).value) else m.lookup a := by
  induction l generalizing m
  case nil => simp
  case cons b l hi =>
    rw [List.foldl_cons, hi]
    by_cases hb : b ∈ m
    case pos =>
      obtain ⟨x, hx⟩ := Finmap.mem_iff.mp hb
      obtain rfl | hab := eq_or_ne a b
      · simp [hb, hx]
      · simp [hb, hab]
    case neg =>
      have hnone := Finmap.lookup_eq_none.mpr hb
      obtain rfl | hab := eq_or_ne a b
      · simp [hb, hnone]
      · simp [hb, hab, Finmap.lookup_insert_of_ne]

-- Every unrevealed attribute has a blinding, the one it had or a fresh draw.
theorem lookup_getMtilde (ha : a ∈ unrevealed) :
    (getMtilde env unrevealed mtilde draws).lookup a =
      some ((mtilde.lookup a).getD (draws a).value) := by
  rw [getMtilde, lookup_foldl_getMtilde, if_pos (env.mem_hashOrder _ _ |>.mpr ha)]

-- The blindings that `addCommonAttribute` draws for the attributes `names`.
def commonBlindings (names : List String) (draws : String → BnRand largeMVect) :
    HashMap BigNumber :=
  names.foldl (fun m a => m.insert a (draws a).value) ∅

theorem foldl_addCommonAttribute (names : List String) (draws : String → BnRand largeMVect) :
    names.foldl (fun builder a => builder.addCommonAttribute a (draws a)) (new C) =
      { new C with commonAttributes := commonBlindings names draws } := by
  suffices h : ∀ builder : ProofBuilder C,
      names.foldl (fun builder a => builder.addCommonAttribute a (draws a)) builder =
        { builder with
          commonAttributes :=
            names.foldl (fun m a => m.insert a (draws a).value) builder.commonAttributes } from h _
  induction names
  case nil => exact fun _ => rfl
  case cons a names hi => exact fun builder => hi _

theorem lookup_commonBlindings (names : List String) (draws : String → BnRand largeMVect) :
    (commonBlindings names draws).lookup a =
      if a ∈ names then some (draws a).value else none :=
  HashMap.lookup_tabulate names fun a => (draws a).value

end Blindings

section EqProof

variable {pk : CredentialPrimaryPublicKey} {common : HashMap BigNumber}
variable {c1 : PrimaryCredentialSignature} {values : CredentialValues} {c : ℤ}

theorem initEqProof_eq_ok
    (h : initEqProof env common pk c1 cs ncs spr m2T draws = .ok initProof) :
    initProof.eTilde = draws.eTilde.value ∧ initProof.ePrime = c1.e - largeEStartValue ∧
      initProof.vTilde = draws.vTilde.value ∧ initProof.vPrime = c1.v - c1.e * draws.r.value ∧
      initProof.mTilde = getMtilde env (unrevealedAttrs cs ncs spr) common draws.mTilde ∧
      initProof.m2Tilde = m2T.getD draws.m2Tilde.value ∧ initProof.m2 = c1.m2 := by
  simp only [initEqProof, bind_eq_ok_iff, pure_eq_ok_iff] at h
  obtain ⟨_, -, _, -, _, -, rfl⟩ := h
  exact ⟨rfl, rfl, rfl, rfl, rfl, rfl, rfl⟩

-- No blinding is negative, so only the modulus and the bases decide whether the equation of the
-- signature can be committed to.
theorem initEqProof_ok_iff (hcommon : ∀ a x, common.lookup a = some x → (0 : ℤ) ≤ x)
    (hm2T : ∀ x ∈ m2T, (0 : ℤ) ≤ x) :
    (∃ initProof, initEqProof env common pk c1 cs ncs spr m2T draws = .ok initProof) ↔
      pk.n ≠ 0 ∧ ∀ a ∈ unrevealedAttrs cs ncs spr, a ∈ pk.r := by
  constructor
  case mp =>
    rintro ⟨initProof, h⟩
    simp only [initEqProof, bind_eq_ok_iff] at h
    obtain ⟨_, -, _, -, t, ht, -⟩ := h
    obtain ⟨hn, -, hattrs, -⟩ := calcTeq_ok_iff.mp ⟨t, ht⟩
    refine ⟨hn, fun a ha => ?_⟩
    obtain ⟨r, _, hr, -⟩ := hattrs a ha
    exact Finmap.mem_of_lookup_eq_some hr
  case mpr =>
    rintro ⟨hn, hbases⟩
    obtain ⟨power, hpower⟩ : ∃ y, modExp pk.s draws.r.value pk.n = .ok y :=
      modExp_ok_iff.mpr ⟨hn, .inl draws.r.value_nonneg⟩
    obtain ⟨aPrime, haPrime⟩ := modMul_ok hn power c1.a
    have hm2 : (0 : ℤ) ≤ m2T.getD draws.m2Tilde.value := by
      cases m2T
      case none => exact draws.m2Tilde.value_nonneg
      case some x => exact hm2T x rfl
    have hattrs : ∀ a ∈ unrevealedAttrs cs ncs spr, AttrDefined pk
        (getMtilde env (unrevealedAttrs cs ncs spr) common draws.mTilde) a := by
      intro a ha
      obtain ⟨r, hr⟩ := Finmap.mem_iff.mp <| hbases a ha
      refine ⟨r, _, hr, lookup_getMtilde ha, .inl ?_⟩
      cases hlookup : common.lookup a
      case none => exact (draws.mTilde a).value_nonneg
      case some x => exact hcommon a x hlookup
    obtain ⟨t, ht⟩ : ∃ t, calcTeq pk env aPrime draws.eTilde.value draws.vTilde.value
        (getMtilde env (unrevealedAttrs cs ncs spr) common draws.mTilde)
        (m2T.getD draws.m2Tilde.value) (unrevealedAttrs cs ncs spr) = .ok t :=
      calcTeq_ok_iff.mpr
        ⟨hn, .inl draws.eTilde.value_nonneg, hattrs, .inl draws.vTilde.value_nonneg, .inl hm2⟩
    simp only [initEqProof, hpower, haPrime, ht, ok_bind, pure_eq_ok_iff, exists_eq']

theorem respondAttr_eq_ok {initProof : PrimaryEqualInitProof}
    (h : respondAttr initProof c values mHat k = .ok mHat') :
    ∃ mTilde value, initProof.mTilde.lookup k = some mTilde ∧
      values.attrsValues.lookup k = some value ∧
      mHat' = mHat.insert k (c * value.value + mTilde) := by
  simp only [respondAttr, bind_eq_ok_iff, okOrElse_eq_ok_iff, pure_eq_ok_iff] at h
  obtain ⟨mTilde, hm, value, hv, rfl⟩ := h
  exact ⟨mTilde, value, hm, hv, rfl⟩

-- Every attribute of the loop has its own response.
theorem lookup_foldlM_respondAttr {initProof : PrimaryEqualInitProof} {l : List String}
    (hm : initProof.mTilde.lookup a = some mTilde)
    (hv : values.attrsValues.lookup a = some value) (ha : a ∈ l)
    (h : l.foldlM (respondAttr initProof c values) mHat = .ok mHat') :
    mHat'.lookup a = some (c * value.value + mTilde) := by
  refine foldlM_assigns (Finmap.lookup a) (fun b _ m m' hb => ?_) (.inl ⟨a, ha, rfl⟩) h
  obtain ⟨x, y, hx, hy, rfl⟩ := respondAttr_eq_ok hb
  split
  case isTrue hab =>
    subst hab
    obtain rfl := Option.some.inj <| hm.symm.trans hx
    obtain rfl := Option.some.inj <| hv.symm.trans hy
    exact Finmap.lookup_insert _
  case isFalse hab => exact Finmap.lookup_insert_of_ne _ hab

-- What the responses of the attributes `l` need.
theorem foldlM_respondAttr_forall {initProof : PrimaryEqualInitProof} {l : List String}
    (h : l.foldlM (respondAttr initProof c values) mHat = .ok mHat') :
    ∀ a ∈ l, ∃ mTilde value, initProof.mTilde.lookup a = some mTilde ∧
      values.attrsValues.lookup a = some value := by
  refine foldlM_forall (fun a _ b b' hb => ?_) h
  obtain ⟨mTilde, value, hm, hv, -⟩ := respondAttr_eq_ok hb
  exact ⟨mTilde, value, hm, hv⟩

theorem finalizeEqProof_eq_ok {initProof : PrimaryEqualInitProof}
    (h : finalizeEqProof initProof c cs ncs values spr = .ok proof) :
    proof.e = c * initProof.ePrime + initProof.eTilde ∧
      proof.v = c * initProof.vPrime + initProof.vTilde ∧
      proof.m2 = c * initProof.m2 + initProof.m2Tilde ∧
      ∀ a ∈ unrevealedAttrs cs ncs spr, ∃ mTilde value,
        initProof.mTilde.lookup a = some mTilde ∧ values.attrsValues.lookup a = some value ∧
        proof.m.lookup a = some (c * value.value + mTilde) := by
  simp only [finalizeEqProof, bind_eq_ok_iff, pure_eq_ok_iff] at h
  obtain ⟨m, hm, revealed, -, rfl⟩ := h
  refine ⟨rfl, rfl, rfl, fun a ha => ?_⟩
  have hmem : a ∈ (unrevealedAttrs cs ncs spr).iter := BTreeSet.mem_iter.mpr ha
  obtain ⟨mTilde, value, hmTilde, hvalue⟩ := foldlM_respondAttr_forall hm a hmem
  exact ⟨mTilde, value, hmTilde, hvalue,
    lookup_foldlM_respondAttr hmTilde hvalue hmem hm⟩

theorem finalizeEqProof_ok_iff {initProof : PrimaryEqualInitProof}
    (hm : ∀ a ∈ unrevealedAttrs cs ncs spr, a ∈ initProof.mTilde) :
    (∃ proof, finalizeEqProof initProof c cs ncs values spr = .ok proof) ↔
      ∀ a ∈ unrevealedAttrs cs ncs spr ∪ spr.revealedAttrs, a ∈ values.attrsValues := by
  constructor
  case mp =>
    rintro ⟨proof, h⟩ a ha
    simp only [finalizeEqProof, bind_eq_ok_iff] at h
    obtain ⟨m, hm, revealed, hrevealed, -⟩ := h
    cases Finset.mem_union.mp ha
    case inl ha =>
      obtain ⟨_, value, -, hv⟩ := foldlM_respondAttr_forall hm a (BTreeSet.mem_iter.mpr ha)
      exact Finmap.mem_of_lookup_eq_some hv
    case inr ha =>
      refine foldlM_forall (fun a _ b b' hb => ?_) hrevealed a (BTreeSet.mem_iter.mpr ha)
      simp only [revealAttr, bind_eq_ok_iff, okOrElse_eq_ok_iff] at hb
      obtain ⟨value, hv, -⟩ := hb
      exact Finmap.mem_of_lookup_eq_some hv
  case mpr =>
    intro hvalues
    obtain ⟨m, hm⟩ : ∃ m, (unrevealedAttrs cs ncs spr).iter.foldlM
        (respondAttr initProof c values) ∅ = .ok m := by
      refine foldlM_ok (fun a ha mHat => ?_) ∅
      have ha' := BTreeSet.mem_iter.mp ha
      obtain ⟨mTilde, hmTilde⟩ := Finmap.mem_iff.mp <| hm a ha'
      obtain ⟨value, hv⟩ := Finmap.mem_iff.mp <| hvalues a <| Finset.mem_union_left _ ha'
      simp [respondAttr, okOrElse, hmTilde, hv]
    obtain ⟨revealed, hrevealed⟩ : ∃ m, (BTreeSet.iter spr.revealedAttrs).foldlM
        (revealAttr values) ∅ = .ok m := by
      refine foldlM_ok (fun a ha revealed => ?_) ∅
      have ha' := BTreeSet.mem_iter.mp ha
      obtain ⟨value, hv⟩ := Finmap.mem_iff.mp <| hvalues a <| Finset.mem_union_right _ ha'
      simp [revealAttr, okOrElse, hv]
    simp only [finalizeEqProof, hm, hrevealed, ok_bind, pure_eq_ok_iff, exists_eq']

end EqProof

section NeProof

variable {c : ℤ} {initProof : PrimaryPredicateInequalityInitProof} {eqProof : PrimaryEqualProof}

theorem lookup_iterationMap (f : ℕ → BigNumber) (hi : i < iteration) :
    (iterationMap f).lookup (toString i) = some (f i) := by
  have hmap : iterationMap f = ((((∅ : HashMap BigNumber).insert (toString 0) (f 0)).insert
      (toString 1) (f 1)).insert (toString 2) (f 2)).insert (toString 3) (f 3) := rfl
  have hcases : i = 0 ∨ i = 1 ∨ i = 2 ∨ i = 3 := by unfold iteration at hi; omega
  rw [hmap]
  obtain rfl | rfl | rfl | rfl := hcases
  · rw [Finmap.lookup_insert_of_ne _ (by decide), Finmap.lookup_insert_of_ne _ (by decide),
      Finmap.lookup_insert_of_ne _ (by decide), Finmap.lookup_insert]
  · rw [Finmap.lookup_insert_of_ne _ (by decide), Finmap.lookup_insert_of_ne _ (by decide),
      Finmap.lookup_insert]
  · rw [Finmap.lookup_insert_of_ne _ (by decide), Finmap.lookup_insert]
  · rw [Finmap.lookup_insert]

theorem toString_ne_delta (hi : i < iteration) : toString i ≠ "DELTA" := by
  have hcases : i = 0 ∨ i = 1 ∨ i = 2 ∨ i = 3 := by unfold iteration at hi; omega
  obtain rfl | rfl | rfl | rfl := hcases <;> decide

theorem respondRoot_eq_ok (h : respondRoot c initProof i = .ok response) :
    response.u = c * exponent initProof.u i + exponent initProof.uTilde i ∧
      response.r = c * exponent initProof.r i + exponent initProof.rTilde i ∧
      response.ur = exponent initProof.u i * exponent initProof.r i := by
  simp only [respondRoot, bind_eq_ok_iff, okOrElse_eq_ok_iff, pure_eq_ok_iff] at h
  obtain ⟨uTilde, huTilde, u, hu, rTilde, hrTilde, r, hr, rfl⟩ := h
  rw [exponent, exponent, exponent, exponent, exponents_eq huTilde, exponents_eq hu,
    exponents_eq hrTilde, exponents_eq hr]
  exact ⟨rfl, rfl, rfl⟩

-- The randomness that is left when the products `u_i * r_i` are taken out.
def productSecret (u r : ℕ → ℤ) (rDelta : ℤ) : ℤ :=
  rDelta - ∑ i ∈ Finset.range iteration, u i * r i

theorem finalizeNeProof_eq_ok (h : finalizeNeProof c initProof eqProof = .ok proof) :
    (∀ i < iteration,
      proof.u.lookup (toString i) =
        some (c * exponent initProof.u i + exponent initProof.uTilde i) ∧
      proof.r.lookup (toString i) =
        some (c * exponent initProof.r i + exponent initProof.rTilde i)) ∧
      proof.r.lookup "DELTA" =
        some (c * exponents initProof.r "DELTA" + exponents initProof.rTilde "DELTA") ∧
      proof.alpha =
        c * productSecret (exponent initProof.u) (exponent initProof.r)
          (exponents initProof.r "DELTA") + initProof.alphaTilde := by
  simp only [finalizeNeProof, bind_eq_ok_iff, okOrElse_eq_ok_iff, pure_eq_ok_iff] at h
  obtain ⟨responses, hresponses, rTildeDelta, hrTildeDelta, rDelta, hrDelta, mj, -, rfl⟩ := h
  refine ⟨fun i hi => ?_, ?_, ?_⟩
  · obtain ⟨response, hget, hok⟩ := getElem?_of_mapM_range hresponses hi
    obtain ⟨hu, hr, -⟩ := respondRoot_eq_ok hok
    rw [Finmap.lookup_insert_of_ne _ (toString_ne_delta hi), lookup_iterationMap _ hi,
      lookup_iterationMap _ hi]
    simp [hget, hu, hr]
  · rw [Finmap.lookup_insert, exponents_eq hrDelta, exponents_eq hrTildeDelta]
  · have hsum : (responses.map (·.ur)).sum =
        ∑ i ∈ Finset.range iteration, exponent initProof.u i * exponent initProof.r i := by
      rw [mapM_map (·.ur) (fun i => exponent initProof.u i * exponent initProof.r i)
        (fun i _ b hb => (respondRoot_eq_ok hb).2.2) hresponses, ← List.toFinset_range,
        List.sum_toFinset _ List.nodup_range]
    simp only [hsum, productSecret, exponents_eq hrDelta]
    ring

section InitNeProof

variable {pPubKey : CredentialPrimaryPublicKey} {values : CredentialValues} {draws : NeProofDraws}

-- The four roots that a predicate is proved with; the draws have no part in them.
def neRoots (values : CredentialValues) (predicate : Predicate) :
    UrsaCryptoResult (HashMap BigNumber) := do
  let credValue ← okOrElse (values.attrsValues.lookup predicate.attrName) <|
    .err .invalidStructure s!"Value by key '{predicate.attrName}' not found in cred_values"
  let attrValue ← parseI32 credValue.value predicate.attrName
  fourSquares (predicate.getDelta attrValue)

theorem neRoots_eq_ok (h : neRoots values predicate = .ok u) :
    ∃ delta, fourSquares delta = .ok u := by
  simp only [neRoots, bind_eq_ok_iff] at h
  obtain ⟨_, -, _, -, h⟩ := h
  exact ⟨_, h⟩

theorem neRoots_bounds (h : neRoots values predicate = .ok u) (hi : i < iteration) :
    0 ≤ exponent u i ∧ exponent u i ≤ 2 ^ 31 := by
  obtain ⟨delta, h⟩ := neRoots_eq_ok h
  exact fourSquares_bounds h hi

theorem initNeProof_eq_ok
    (h : initNeProof pPubKey mTilde values predicate draws = .ok initProof) :
    neRoots values predicate = .ok initProof.u ∧
      (∀ i < iteration, initProof.r.lookup (toString i) = some (draws.r i).value ∧
        initProof.uTilde.lookup (toString i) = some (draws.uTilde i).value ∧
        initProof.rTilde.lookup (toString i) = some (draws.rTilde i).value) ∧
      initProof.r.lookup "DELTA" = some draws.rDelta.value ∧
      initProof.rTilde.lookup "DELTA" = some draws.rTildeDelta.value ∧
      initProof.alphaTilde = draws.alphaTilde.value ∧ initProof.predicate = predicate := by
  simp only [initNeProof, bind_eq_ok_iff, okOrElse_eq_ok_iff] at h
  obtain ⟨credValue, hvalue, attrValue, hparse, h⟩ := h
  split at h
  case isTrue => cases h
  case isFalse =>
    simp only [bind_eq_ok_iff, okOrElse_eq_ok_iff, pure_eq_ok_iff] at h
    obtain ⟨u, hu, roots, -, tDelta, -, mj, -, tauList, -, rfl⟩ := h
    refine ⟨?_, fun i hi => ⟨?_, ?_, ?_⟩, ?_, ?_, rfl, rfl⟩
    · simp [neRoots, okOrElse, hvalue, hparse, hu]
    · rw [Finmap.lookup_insert_of_ne _ (toString_ne_delta hi), lookup_iterationMap _ hi]
    · exact lookup_iterationMap _ hi
    · rw [Finmap.lookup_insert_of_ne _ (toString_ne_delta hi), lookup_iterationMap _ hi]
    · exact Finmap.lookup_insert _
    · exact Finmap.lookup_insert _

-- Every key that `finalizeNeProof` looks up was put there by `initNeProof`.
theorem finalizeNeProof_ok
    (h : initNeProof pPubKey mTilde values predicate draws = .ok initProof)
    (hm : predicate.attrName ∈ eqProof.m) :
    ∃ proof, finalizeNeProof c initProof eqProof = .ok proof := by
  obtain ⟨hroots, hdraws, hrDelta, hrTildeDelta, -, rfl⟩ := initNeProof_eq_ok h
  obtain ⟨delta, hu⟩ := neRoots_eq_ok hroots
  have hrespond : ∀ i ∈ List.range iteration, ∃ y, respondRoot c initProof i = .ok y := by
    intro i hi
    obtain ⟨x, hx, -⟩ := fourSquares_eq_ok hu <| List.mem_range.mp hi
    obtain ⟨hr, huTilde, hrTilde⟩ := hdraws i <| List.mem_range.mp hi
    simp only [respondRoot, hx, hr, huTilde, hrTilde, okOrElse, ok_bind, pure_eq_ok_iff, exists_eq']
  obtain ⟨responses, hresponses⟩ := mapM_ok hrespond
  obtain ⟨mj, hmj⟩ := Finmap.mem_iff.mp hm
  simp only [finalizeNeProof, hresponses, hrDelta, hrTildeDelta, hmj, okOrElse, ok_bind,
    pure_eq_ok_iff, exists_eq']

end InitNeProof

end NeProof

end ProofBuilder
end Ursa
