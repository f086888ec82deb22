import Ursa.Cl.Theorems.Responses

namespace Ursa

open BigNumber UrsaCryptoResult StatDist

-- What one inequality proof is made of, besides the draws and the challenge.
structure PredicateRun where
  pPubKey : CredentialPrimaryPublicKey
  mTilde : HashMap BigNumber
  values : CredentialValues
  predicate : Predicate
  eqProof : PrimaryEqualProof

namespace NeProofDraws

-- The same draws, but for one blinding.
def withUTilde (draws : NeProofDraws) (i : ℕ) (x : BnRand largeUTilde) : NeProofDraws :=
  { draws with uTilde := Function.update draws.uTilde i x }

def withRTilde (draws : NeProofDraws) (i : ℕ) (x : BnRand largeRTilde) : NeProofDraws :=
  { draws with rTilde := Function.update draws.rTilde i x }

def withRTildeDelta (draws : NeProofDraws) (x : BnRand largeRTilde) : NeProofDraws :=
  { draws with rTildeDelta := x }

def withAlphaTilde (draws : NeProofDraws) (x : BnRand largeAlphaTilde) : NeProofDraws :=
  { draws with alphaTilde := x }

end NeProofDraws

namespace PredicateRun

variable {P P' : PredicateRun} {draws draws' : NeProofDraws} {c : ℤ} {i : ℕ}

def prove (P : PredicateRun) (draws : NeProofDraws) (c : BigNumber) :
    UrsaCryptoResult PrimaryPredicateInequalityProof := do
  let initProof ← ProofBuilder.initNeProof P.pPubKey P.mTilde P.values P.predicate draws
  ProofBuilder.finalizeNeProof c initProof P.eqProof

def roots (P : PredicateRun) : UrsaCryptoResult (HashMap BigNumber) :=
  ProofBuilder.neRoots P.values P.predicate

-- The run ends with a proof whatever is drawn.
def Total (P : PredicateRun) (c : ℤ) : Prop :=
  ∀ draws, ∃ proof, P.prove draws c = .ok proof

-- The secret behind `alpha`.
def alphaSecret (u : HashMap BigNumber) (draws : NeProofDraws) : ℤ :=
  ProofBuilder.productSecret (exponent u) (fun i => (draws.r i).value) draws.rDelta.value

-- The responses: challenge times secret, plus the draw that blinds it.
theorem prove_eq_ok (h : P.prove draws c = .ok proof) : ∃ u, P.roots = .ok u ∧
    (∀ i < iteration,
      proof.u.lookup (toString i) = some (c * exponent u i + (draws.uTilde i).value) ∧
      proof.r.lookup (toString i) = some (c * (draws.r i).value + (draws.rTilde i).value)) ∧
    proof.r.lookup "DELTA" = some (c * draws.rDelta.value + draws.rTildeDelta.value) ∧
    proof.alpha = c * alphaSecret u draws + draws.alphaTilde.value := by
  simp only [prove, bind_eq_ok_iff] at h
  obtain ⟨initProof, hinit, hfin⟩ := h
  obtain ⟨hroots, hdraws, hrDelta, hrTildeDelta, halphaTilde, -⟩ :=
    ProofBuilder.initNeProof_eq_ok hinit
  obtain ⟨hresponses, hdelta, halpha⟩ := ProofBuilder.finalizeNeProof_eq_ok hfin
  have hrand : ∀ i < iteration, exponent initProof.r i = (draws.r i).value :=
    fun i hi => exponents_eq (hdraws i hi).1
  refine ⟨initProof.u, hroots, fun i hi => ?_, ?_, ?_⟩
  · obtain ⟨hu, hr⟩ := hresponses i hi
    obtain ⟨-, huTilde, hrTilde⟩ := hdraws i hi
    rw [hu, hr, hrand i hi, exponent, exponent, exponent, exponents_eq huTilde, exponents_eq hrTilde]
    exact ⟨rfl, rfl⟩
  · rw [hdelta, exponents_eq hrDelta, exponents_eq hrTildeDelta]
  · have hsecret : ProofBuilder.productSecret (exponent initProof.u) (exponent initProof.r)
        (exponents initProof.r "DELTA") = alphaSecret initProof.u draws := by
      rw [alphaSecret, ProofBuilder.productSecret, ProofBuilder.productSecret, exponents_eq hrDelta]
      congr 1
      refine Finset.sum_congr rfl fun i hi => ?_
      rw [hrand i <| Finset.mem_range.mp hi]
    rw [halpha, hsecret, halphaTilde]

section Distributions

variable (P : PredicateRun) (draws : NeProofDraws) (c : ℤ)

noncomputable def uDist (i : ℕ) : PMF (UrsaCryptoResult (Option BigNumber)) :=
  drawn fun x => (·.u.lookup (toString i)) <$> P.prove (draws.withUTilde i x) c

noncomputable def rDist (i : ℕ) : PMF (UrsaCryptoResult (Option BigNumber)) :=
  drawn fun x => (·.r.lookup (toString i)) <$> P.prove (draws.withRTilde i x) c

noncomputable def rDeltaDist : PMF (UrsaCryptoResult (Option BigNumber)) :=
  drawn fun x => (·.r.lookup "DELTA") <$> P.prove (draws.withRTildeDelta x) c

noncomputable def alphaDist : PMF (UrsaCryptoResult BigNumber) :=
  drawn fun x => (·.alpha) <$> P.prove (draws.withAlphaTilde x) c

end Distributions

theorem map_prove {f : PrimaryPredicateInequalityProof → α} (hok : P.Total c)
    (hf : ∀ proof, P.prove draws c = .ok proof → f proof = x) :
    f <$> P.prove draws c = .ok x := by
  obtain ⟨proof, h⟩ := hok draws
  rw [h, ← hf proof h]
  rfl

theorem uDist_eq (hok : P.Total c) (hu : P.roots = .ok u) (hi : i < iteration) :
    P.uDist draws c i = drawn fun x : BnRand largeUTilde =>
      .ok (some (c * exponent u i + x.value)) := by
  rw [uDist]
  congr 1
  funext x
  refine map_prove hok fun proof h => ?_
  obtain ⟨u', hu', hresponses, -⟩ := prove_eq_ok h
  obtain rfl := ok_injective <| hu.symm.trans hu'
  rw [(hresponses i hi).1]
  simp [NeProofDraws.withUTilde]

theorem rDist_eq (hok : P.Total c) (hi : i < iteration) :
    P.rDist draws c i = drawn fun x : BnRand largeRTilde =>
      .ok (some (c * (draws.r i).value + x.value)) := by
  rw [rDist]
  congr 1
  funext x
  refine map_prove hok fun proof h => ?_
  obtain ⟨_, -, hresponses, -⟩ := prove_eq_ok h
  rw [(hresponses i hi).2]
  simp [NeProofDraws.withRTilde]

theorem rDeltaDist_eq (hok : P.Total c) :
    P.rDeltaDist draws c = drawn fun x : BnRand largeRTilde =>
      .ok (some (c * draws.rDelta.value + x.value)) := by
  rw [rDeltaDist]
  congr 1
  funext x
  refine map_prove hok fun proof h => ?_
  obtain ⟨_, -, -, hdelta, -⟩ := prove_eq_ok h
  exact hdelta

theorem alphaDist_eq (hok : P.Total c) (hu : P.roots = .ok u) :
    P.alphaDist draws c = drawn fun x : BnRand largeAlphaTilde =>
      .ok (c * alphaSecret u draws + x.value) := by
  rw [alphaDist]
  congr 1
  funext x
  refine map_prove hok fun proof h => ?_
  obtain ⟨u', hu', -, -, halpha⟩ := prove_eq_ok h
  obtain rfl := ok_injective <| hu.symm.trans hu'
  exact halpha

-- No response tells two choices of the secrets apart with a probability of more than `2 ^ -78`.
structure Hides (P P' : PredicateRun) (draws draws' : NeProofDraws) (c : ℤ) : Prop where
  u : ∀ i < iteration, statDist (P.uDist draws c i) (P'.uDist draws' c i) ≤ 1 / 2 ^ 78
  r : ∀ i < iteration, statDist (P.rDist draws c i) (P'.rDist draws' c i) ≤ 1 / 2 ^ 78
  rDelta : statDist (P.rDeltaDist draws c) (P'.rDeltaDist draws' c) ≤ 1 / 2 ^ 78
  alpha : statDist (P.alphaDist draws c) (P'.alphaDist draws' c) ≤ 1 / 2 ^ 78

-- The randomness of the commitments differs by little enough for the blindings of 672 bits.
structure Masked (draws draws' : NeProofDraws) (c : ℤ) : Prop where
  r : ∀ i < iteration,
    2 ^ 78 * (c * (draws.r i).value - c * (draws'.r i).value).natAbs ≤ 2 ^ largeRTilde
  rDelta : 2 ^ 78 * (c * draws.rDelta.value - c * draws'.rDelta.value).natAbs ≤ 2 ^ largeRTilde

theorem Total.exists_roots (hok : P.Total c) (draws : NeProofDraws) : ∃ u, P.roots = .ok u := by
  obtain ⟨proof, h⟩ := hok draws
  obtain ⟨u, hu, -⟩ := prove_eq_ok h
  exact ⟨u, hu⟩

-- A sum of four products of a root with the randomness of its commitment.
theorem alphaSecret_bounds (hu : P.roots = .ok u) (draws : NeProofDraws) :
    -2 ^ 2161 ≤ alphaSecret u draws ∧ alphaSecret u draws ≤ -2 ^ 2161 + (2 ^ 2162 : ℕ) := by
  have hbounds : ∀ i ∈ Finset.range iteration, (0 : ℤ) ≤ exponent u i * (draws.r i).value ∧
      (exponent u i * (draws.r i).value : ℤ) ≤ 2 ^ 2159 := by
    intro i hi
    obtain ⟨hu₀, hu₁⟩ := ProofBuilder.neRoots_bounds hu <| Finset.mem_range.mp hi
    refine ⟨mul_nonneg hu₀ (draws.r i).value_nonneg, ?_⟩
    calc (exponent u i * (draws.r i).value : ℤ)
      _ ≤ 2 ^ 31 * 2 ^ largeVPrime :=
        mul_le_mul hu₁ (draws.r i).value_le (draws.r i).value_nonneg (by positivity)
      _ = 2 ^ 2159                 := by rw [← pow_add, largeVPrime]
  have hsum₀ := Finset.sum_nonneg fun i hi => (hbounds i hi).1
  have hsum := Finset.sum_le_card_nsmul _ _ _ fun i hi => (hbounds i hi).2
  have hfour : (Finset.range iteration).card • (2 ^ 2159 : ℤ) = 2 ^ 2161 := by
    rw [Finset.card_range, iteration, nsmul_eq_mul, pow_add 2 2 2159]
    rfl
  have hdelta₀ := draws.rDelta.value_nonneg
  have hdelta : (draws.rDelta.value : ℤ) ≤ 2 ^ 2161 :=
    draws.rDelta.value_le.trans <| pow_le_pow_right₀ (by decide) (by decide)
  have htwo : ((2 ^ 2162 : ℕ) : ℤ) = 2 ^ 2161 + 2 ^ 2161 := by
    rw [Nat.cast_pow, Nat.cast_ofNat, ← two_mul, ← pow_succ']
  rw [hfour] at hsum
  rw [alphaSecret, ProofBuilder.productSecret, htwo]
  generalize (2 : ℤ) ^ 2161 = b at hsum hdelta ⊢
  constructor <;> linarith

theorem hides_iff (hc₀ : 0 ≤ c) (hc : c < 2 ^ 256) (hok : P.Total c) (hok' : P'.Total c) :
    Hides P P' draws draws' c ↔ Masked draws draws' c := by
  have hcabs : c.natAbs ≤ 2 ^ 256 := by omega
  obtain ⟨u, hu⟩ := hok.exists_roots draws
  obtain ⟨u', hu'⟩ := hok'.exists_roots draws'
  have hreveal : Function.Injective fun x : ℤ => (.ok (some x) : UrsaCryptoResult (Option ℤ)) :=
    ok_injective.comp <| Option.some_injective _
  constructor
  case mp =>
    intro h
    constructor
    case r =>
      intro i hi
      have hri := h.r i hi
      rw [rDist_eq hok hi, rDist_eq hok' hi] at hri
      exact (BnRand.mask_le_iff hreveal).mp hri
    case rDelta =>
      have hdelta := h.rDelta
      rw [rDeltaDist_eq hok, rDeltaDist_eq hok'] at hdelta
      exact (BnRand.mask_le_iff hreveal).mp hdelta
  case mpr =>
    intro h
    constructor
    case u =>
      intro i hi
      rw [uDist_eq hok hu hi, uDist_eq hok' hu' hi]
      obtain ⟨hu₀, hu₁⟩ := ProofBuilder.neRoots_bounds hu hi
      obtain ⟨hu₀', hu₁'⟩ := ProofBuilder.neRoots_bounds hu' hi
      refine (BnRand.mask_le_iff hreveal).mpr <| two_pow_mul_natAbs_le hcabs (j := 31) ?_ (by decide)
      omega
    case r =>
      intro i hi
      rw [rDist_eq hok hi, rDist_eq hok' hi]
      exact (BnRand.mask_le_iff hreveal).mpr <| h.r i hi
    case rDelta =>
      rw [rDeltaDist_eq hok, rDeltaDist_eq hok']
      exact (BnRand.mask_le_iff hreveal).mpr h.rDelta
    case alpha =>
      rw [alphaDist_eq hok hu, alphaDist_eq hok' hu']
      exact (BnRand.mask_le_iff ok_injective).mpr <| two_pow_mul_natAbs_le hcabs
        (natAbs_sub_le (alphaSecret_bounds hu draws) (alphaSecret_bounds hu' draws')) (by decide)

-- When the run ends with a proof: the credential has a value that satisfies the predicate, and the
-- equality proof has a blinding of it and a response to it.
structure Provable (P : PredicateRun) : Prop where
  n : 1 < P.pPubKey.n.natAbs
  s : Int.gcd P.pPubKey.s P.pPubKey.n = 1
  value : ∃ value attrValue, P.values.attrsValues.lookup P.predicate.attrName = some value ∧
    ProofBuilder.parseI32 value.value P.predicate.attrName = .ok attrValue ∧
    0 ≤ (P.predicate.getDelta attrValue).toInt
  mTilde : ∃ mj, P.mTilde.lookup P.predicate.attrName = some mj ∧ (0 : ℤ) ≤ mj
  response : P.predicate.attrName ∈ P.eqProof.m

theorem commitRoot_ok {pk : CredentialPrimaryPublicKey} (hn : pk.n ≠ 0)
    (hu : fourSquares delta = .ok u) (hi : i < iteration) :
    ∃ y, ProofBuilder.commitRoot pk u draws i = .ok y := by
  obtain ⟨x, hx, -⟩ := fourSquares_eq_ok hu hi
  obtain ⟨y, hy⟩ := getPedersenCommitment_ok hn
    (.inl (Int.natCast_nonneg x) : PowDefined pk.z x pk.n)
    (.inl (draws.r i).value_nonneg : PowDefined pk.s (draws.r i).value pk.n)
  exact ⟨y, by simpa only [ProofBuilder.commitRoot, hx, okOrElse, ok_bind] using hy⟩

theorem Provable.initNeProof_ok (h : P.Provable) (draws : NeProofDraws) :
    ∃ initProof, ProofBuilder.initNeProof P.pPubKey P.mTilde P.values P.predicate draws =
      .ok initProof := by
  have hn₀ := ne_zero_of_one_lt h.n
  obtain ⟨value, attrValue, hvalue, hparse, hdelta⟩ := h.value
  obtain ⟨mj, hmj, hmj₀⟩ := h.mTilde
  obtain ⟨u, hu⟩ := fourSquares_ok hdelta
  have hcommit : ∀ i ∈ List.range iteration,
      ∃ y, ProofBuilder.commitRoot P.pPubKey u draws i = .ok y :=
    fun i hi => commitRoot_ok hn₀ hu <| List.mem_range.mp hi
  obtain ⟨roots, hroots⟩ := mapM_ok hcommit
  obtain ⟨tDelta, htDelta⟩ := getPedersenCommitment_ok hn₀
    (.inl hdelta : PowDefined P.pPubKey.z _ P.pPubKey.n)
    (.inl draws.rDelta.value_nonneg : PowDefined P.pPubKey.s draws.rDelta.value P.pPubKey.n)
  have htne : TneDefined P.pPubKey
      (ProofBuilder.iterationMap fun i => (draws.uTilde i).value)
      ((ProofBuilder.iterationMap fun i => (draws.rTilde i).value).insert "DELTA"
        draws.rTildeDelta.value)
      ((ProofBuilder.iterationMap fun i => roots.getD i 0).insert "DELTA" tDelta)
      mj draws.alphaTilde.value P.predicate.isLess := by
    constructor
    case root =>
      intro i hi
      have hne := ProofBuilder.toString_ne_delta hi
      refine ⟨_, _, roots.getD i 0, ProofBuilder.lookup_iterationMap _ hi, ?_, ?_,
        .inl (draws.uTilde i).value_nonneg, .inl (draws.rTilde i).value_nonneg,
        .inl (draws.uTilde i).value_nonneg⟩
      · rw [Finmap.lookup_insert_of_ne _ hne, ProofBuilder.lookup_iterationMap _ hi]
      · rw [Finmap.lookup_insert_of_ne _ hne, ProofBuilder.lookup_iterationMap _ hi]
    case delta => exact ⟨_, Finmap.lookup_insert _, .inr ⟨h.n, h.s⟩⟩
    case mj => exact .inl hmj₀
    case alpha => exact .inl draws.alphaTilde.value_nonneg
  obtain ⟨tauList, htauList⟩ := calcTne_ok hn₀ htne
  simp only [ProofBuilder.initNeProof, okOrElse, hvalue, hparse, if_neg (not_lt.mpr hdelta), hu,
    hroots, htDelta, hmj, htauList, ok_bind, pure_eq_ok_iff, exists_eq']

theorem Provable.total (h : P.Provable) (c : ℤ) : P.Total c := by
  intro draws
  obtain ⟨initProof, hinit⟩ := h.initNeProof_ok draws
  obtain ⟨proof, hproof⟩ := ProofBuilder.finalizeNeProof_ok hinit h.response
  exact ⟨proof, by rw [prove, hinit, ok_bind, hproof]⟩

end PredicateRun
end Ursa
