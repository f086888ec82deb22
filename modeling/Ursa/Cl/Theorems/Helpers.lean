import Ursa.Cl.Helpers
import Ursa.Math.ClSignature

namespace Ursa

open BigNumber UrsaCryptoResult
open ClKey (RangeExponents)

-- The exponents that a map of responses stands for.
def exponents (m : HashMap BigNumber) (a : String) : ℤ :=
  (m.lookup a).getD 0

-- The response with the number `i`, for the loops over `0..ITERATION`.
def exponent (m : HashMap BigNumber) (i : ℕ) : ℤ :=
  exponents m (toString i)

theorem exponents_eq (h : m.lookup a = some x) : exponents m a = x := by
  simp [exponents, h]

theorem prod_hashOrder {M : Type} [CommMonoid M] (env : Env) (s : Finset String) (f : String → M) :
    ((env.hashOrder s).map f).prod = ∏ a ∈ s, f a := by
  rw [← List.prod_toFinset f (env.nodup_hashOrder s)]
  congr 1
  ext a
  simp [env.mem_hashOrder]

theorem prod_iter_set {M : Type} [CommMonoid M] (s : BTreeSet String) (f : String → M) :
    ((BTreeSet.iter s).map f).prod = ∏ a ∈ s, f a := by
  rw [← List.prod_toFinset _ (BTreeSet.nodup_iter _)]
  congr 1
  ext a
  simp

theorem prod_iter {M : Type} [CommMonoid M] (m : BTreeMap BigNumber) (f : String → ℤ → M) :
    (m.iter.map fun entry => f entry.1 entry.2).prod = ∏ a ∈ m.keys, f a (exponents m a) := by
  rw [BTreeMap.map_iter _ 0]
  exact prod_iter_set m.keys fun a => f a (exponents m a)

namespace CredentialValues

variable {values : CredentialValues} {p : CredentialValue → Bool}

-- The exponents that the values stand for.
def exponents (values : CredentialValues) (a : String) : ℤ :=
  ((values.attrsValues.lookup a).map (·.value)).getD 0

theorem exponents_eq (h : values.attrsValues.lookup a = some attr) :
    values.exponents a = attr.value := by
  rw [exponents, h]
  rfl

-- The names of the attributes whose values are of one kind.
def names (values : CredentialValues) (p : CredentialValue → Bool) : Finset String :=
  ((values.attrsValues.iter.filter (p ·.2)).map Prod.fst).toFinset

theorem mem_names : a ∈ values.names p ↔ ∃ attr, values.attrsValues.lookup a = some attr ∧ p attr := by
  simp only [names, List.mem_toFinset, List.mem_map, List.mem_filter, Prod.exists,
    exists_and_right, exists_eq_right, BTreeMap.mem_iter]

-- The attributes of one kind, in the order in which they are walked.
theorem map_fst_filter_iter (values : CredentialValues) (p : CredentialValue → Bool) :
    (values.attrsValues.iter.filter (p ·.2)).map Prod.fst = BTreeSet.iter (values.names p) := by
  have hsub : ((values.attrsValues.iter.filter (p ·.2)).map Prod.fst).Sublist
      (BTreeSet.iter values.attrsValues.keys) := by
    rw [← BTreeMap.map_fst_iter]
    exact (List.filter_sublist).map _
  refine BTreeSet.eq_iter ((BTreeSet.pairwise_iter _).sublist hsub)
    ((BTreeSet.nodup_iter _).sublist hsub) fun a => ?_
  rw [names, List.mem_toFinset]

theorem prod_filter_iter {M : Type} [CommMonoid M] (values : CredentialValues)
    (p : CredentialValue → Bool) (f : String → ℤ → M) :
    ((values.attrsValues.iter.filter (p ·.2)).map fun entry => f entry.1 entry.2.value).prod =
      ∏ a ∈ values.names p, f a (values.exponents a) := by
  have hnodup : ((values.attrsValues.iter.filter (p ·.2)).map Prod.fst).Nodup :=
    (BTreeMap.nodup_fst_iter values.attrsValues).sublist <| (List.filter_sublist).map _
  rw [names, List.prod_toFinset _ hnodup, List.map_map]
  congr 1
  refine List.map_congr_left fun entry hentry => ?_
  obtain ⟨a, attr⟩ := entry
  rw [Function.comp_apply, exponents_eq <| BTreeMap.mem_iter.mp <| List.mem_of_mem_filter hentry]

end CredentialValues

-- The units that the elements of a public key stand for.
structure UnitKey (pPubKey : CredentialPrimaryPublicKey) extends
    ClKey (ZMod pPubKey.n.natAbs)ˣ String where
  s_eq : (pPubKey.s : ZMod pPubKey.n.natAbs) = s
  z_eq : (pPubKey.z : ZMod pPubKey.n.natAbs) = z
  rctxt_eq : (pPubKey.rctxt : ZMod pPubKey.n.natAbs) = rctxt
  r_eq : ∀ a x, pPubKey.r.lookup a = some x → (x : ZMod pPubKey.n.natAbs) = r a

variable {pPubKey : CredentialPrimaryPublicKey} {K : UnitKey pPubKey} {env : Env}

section CalcTeq

variable {aPrime e v m2 : ℤ} {m : HashMap BigNumber} {a : (ZMod pPubKey.n.natAbs)ˣ}

theorem calcTeqAttr_eq_ok (K : UnitKey pPubKey) (h : calcTeqAttr pPubKey m x k = .ok y) :
    (y : ZMod pPubKey.n.natAbs) = ↑(K.r k ^ exponents m k) * (x : ZMod pPubKey.n.natAbs) := by
  simp only [calcTeqAttr, bind_eq_ok_iff, okOrElse_eq_ok_iff] at h
  obtain ⟨curR, hr, curM, hm, power, hp, h⟩ := h
  rw [modMul_cast h, modExp_unit hp (K.r_eq k curR hr), exponents_eq hm]

theorem calcTeq_eq_ok (K : UnitKey pPubKey) (ha : (aPrime : ZMod pPubKey.n.natAbs) = a)
    (h : calcTeq pPubKey env aPrime e v m m2 unrevealed = .ok t) :
    (t : ZMod pPubKey.n.natAbs) = K.represent a e v m2 (exponents m) unrevealed := by
  simp only [calcTeq, bind_eq_ok_iff] at h
  obtain ⟨x, hx, y, hy, sPower, hs, z, hz, rPower, hr, h⟩ := h
  have hattrs := foldlM_prod (fun b : BigNumber => (b : ZMod pPubKey.n.natAbs)) _
    (fun k _ b b' hb => calcTeqAttr_eq_ok K hb) hy
  rw [prod_hashOrder env unrevealed] at hattrs
  rw [modMul_cast h, modMul_cast hz, hattrs, modExp_unit hx ha, modExp_unit hs K.s_eq,
    modExp_unit hr K.rctxt_eq, ClKey.represent, ClKey.attributes]
  push_cast
  ring

-- When a base and an exponent for the attribute `a` are there, and the power exists.
def AttrDefined (pPubKey : CredentialPrimaryPublicKey) (m : HashMap BigNumber) (a : String) :
    Prop :=
  ∃ r x, pPubKey.r.lookup a = some r ∧ m.lookup a = some x ∧ PowDefined r x pPubKey.n

theorem calcTeqAttr_ok (hn : pPubKey.n ≠ 0) (h : AttrDefined pPubKey m k) (x : BigNumber) :
    ∃ y, calcTeqAttr pPubKey m x k = .ok y := by
  obtain ⟨r, curM, hr, hm, hp⟩ := h
  obtain ⟨power, hpower⟩ := modExp_ok_iff.mpr ⟨hn, hp⟩
  obtain ⟨y, hy⟩ := modMul_ok hn power x
  exact ⟨y, by simpa [calcTeqAttr, hr, hm, okOrElse, hpower] using hy⟩

theorem attrDefined_of_eq_ok (h : calcTeqAttr pPubKey m x k = .ok y) :
    AttrDefined pPubKey m k := by
  simp only [calcTeqAttr, bind_eq_ok_iff, okOrElse_eq_ok_iff] at h
  obtain ⟨r, hr, curM, hm, power, hp, -⟩ := h
  exact ⟨r, curM, hr, hm, (modExp_ok_iff.mp ⟨power, hp⟩).2⟩

theorem calcTeq_ok_iff : (∃ t, calcTeq pPubKey env aPrime e v m m2 unrevealed = .ok t) ↔
    pPubKey.n ≠ 0 ∧ PowDefined aPrime e pPubKey.n ∧ (∀ a ∈ unrevealed, AttrDefined pPubKey m a) ∧
      PowDefined pPubKey.s v pPubKey.n ∧ PowDefined pPubKey.rctxt m2 pPubKey.n := by
  constructor
  case mp =>
    rintro ⟨t, h⟩
    simp only [calcTeq, bind_eq_ok_iff] at h
    obtain ⟨x, hx, y, hy, sPower, hs, z, hz, rPower, hr, -⟩ := h
    obtain ⟨hn, hx⟩ := modExp_ok_iff.mp ⟨x, hx⟩
    have hattrs := foldlM_forall (fun a _ _ _ hb => attrDefined_of_eq_ok hb) hy
    refine ⟨hn, hx, fun a ha => hattrs a ((env.mem_hashOrder _ _).mpr ha), ?_, ?_⟩
    · exact (modExp_ok_iff.mp ⟨sPower, hs⟩).2
    · exact (modExp_ok_iff.mp ⟨rPower, hr⟩).2
  case mpr =>
    rintro ⟨hn, ha, hattrs, hs, hr⟩
    obtain ⟨x, hx⟩ := modExp_ok_iff.mpr ⟨hn, ha⟩
    obtain ⟨y, hy⟩ := foldlM_ok
      (fun a ha b => calcTeqAttr_ok hn (hattrs a ((env.mem_hashOrder _ _).mp ha)) b) x
    obtain ⟨sPower, hs⟩ := modExp_ok_iff.mpr ⟨hn, hs⟩
    obtain ⟨z, hz⟩ := modMul_ok hn sPower y
    obtain ⟨rPower, hr⟩ := modExp_ok_iff.mpr ⟨hn, hr⟩
    obtain ⟨t, ht⟩ := modMul_ok hn rPower z
    exact ⟨t, by simp [calcTeq, hx, hy, hs, hz, hr, ht]⟩

end CalcTeq

section CalcTne

variable {u r t : HashMap BigNumber} {mj alpha : ℤ} {T : String → (ZMod pPubKey.n.natAbs)ˣ}

-- The units that the commitments of one predicate stand for.
def StandsFor (n : ℤ) (t : HashMap BigNumber) (T : String → (ZMod n.natAbs)ˣ) : Prop :=
  ∀ k x, t.lookup k = some x → (x : ZMod n.natAbs) = T k

-- The exponents that `calcTne` uses.
def rangeExponents (u r : HashMap BigNumber) (mj alpha : ℤ) (isLess : Bool) : RangeExponents where
  u := exponent u
  r := exponent r
  mj := mj
  rho := deltaPredicate (exponents r "DELTA") isLess
  alpha := alpha

theorem calcTneRoot_eq_ok (K : UnitKey pPubKey) (h : calcTneRoot pPubKey u r i = .ok y) :
    (y : ZMod pPubKey.n.natAbs) = K.commit (exponent u i) (exponent r i) := by
  simp only [calcTneRoot, bind_eq_ok_iff, okOrElse_eq_ok_iff] at h
  obtain ⟨curU, hu, curR, hr, x, hx, z, hz, h⟩ := h
  rw [modMul_cast h, modExp_unit hx K.z_eq, modExp_unit hz K.s_eq, exponent, exponent,
    exponents_eq hu, exponents_eq hr, ClKey.commit, Units.val_mul]

theorem calcTneProduct_eq_ok (hT : StandsFor pPubKey.n t T)
    (h : calcTneProduct pPubKey u t q i = .ok y) :
    (y : ZMod pPubKey.n.natAbs) =
      ↑(T (toString i) ^ exponent u i) * (q : ZMod pPubKey.n.natAbs) := by
  simp only [calcTneProduct, bind_eq_ok_iff, okOrElse_eq_ok_iff, pure_eq_ok_iff] at h
  obtain ⟨curT, ht, curU, hu, power, hp, rfl⟩ := h
  rw [Int.cast_mul, modExp_unit hp (hT _ _ ht), exponent, exponents_eq hu]

-- The values before the challenge is taken out.
theorem calcTne_eq_ok (K : UnitKey pPubKey) (hT : StandsFor pPubKey.n t T)
    (h : calcTne pPubKey u r mj alpha t isLess = .ok tauList) :
    let x := rangeExponents u r mj alpha isLess
    tauList.map (fun tau : BigNumber => (tau : ZMod pPubKey.n.natAbs)) =
      ((List.range iteration).map (fun i => K.commit (x.u i) (x.r i)) ++
        [K.commit x.mj x.rho, K.productTau (fun i => T (toString i)) x iteration]).map (↑) := by
  intro w
  simp only [calcTne, bind_eq_ok_iff, okOrElse_eq_ok_iff, pure_eq_ok_iff] at h
  obtain ⟨roots, hroots, delta, hdelta, x, hx, y, hy, tTau, htTau, q, hq, power, hp, tau, htau,
    rfl⟩ := h
  have hrootsCast := mapM_map (fun b : BigNumber => (b : ZMod pPubKey.n.natAbs)) _
    (fun i _ b hb => calcTneRoot_eq_ok K hb) hroots
  have hprod := foldlM_prod (fun b : BigNumber => (b : ZMod pPubKey.n.natAbs)) _
    (fun i _ b b' hb => calcTneProduct_eq_ok hT hb) hq
  have htTauCast : (tTau : ZMod pPubKey.n.natAbs) =
      K.commit mj (deltaPredicate (exponents r "DELTA") isLess) := by
    rw [modMul_cast htTau, modExp_unit hx K.z_eq, modExp_unit hy K.s_eq, exponents_eq hdelta,
      ClKey.commit, Units.val_mul]
  have htauCast : (tau : ZMod pPubKey.n.natAbs) =
      K.productTau (fun i => T (toString i)) w iteration := by
    rw [modMul_cast htau, modExp_unit hp K.s_eq, hprod, ClKey.productTau, Units.val_mul,
      Units.coe_prod, ← List.toFinset_range, List.prod_toFinset _ List.nodup_range]
    simp [w, rangeExponents]
  rw [List.map_append, List.map_append, hrootsCast, List.map_map]
  simp only [List.map_cons, List.map_nil, htTauCast, htauCast]
  rfl

-- When the keys that `calcTne` looks up are there, and the powers exist.
structure TneDefined (pPubKey : CredentialPrimaryPublicKey) (u r t : HashMap BigNumber)
    (mj alpha : ℤ) (isLess : Bool) : Prop where
  root : ∀ i < iteration, ∃ curU curR curT, u.lookup (toString i) = some curU ∧
    r.lookup (toString i) = some curR ∧ t.lookup (toString i) = some curT ∧
    PowDefined pPubKey.z curU pPubKey.n ∧ PowDefined pPubKey.s curR pPubKey.n ∧
    PowDefined curT curU pPubKey.n
  delta : ∃ delta, r.lookup "DELTA" = some delta ∧
    PowDefined pPubKey.s (deltaPredicate delta isLess) pPubKey.n
  mj : PowDefined pPubKey.z mj pPubKey.n
  alpha : PowDefined pPubKey.s alpha pPubKey.n

theorem calcTne_ok (hn : pPubKey.n ≠ 0) (h : TneDefined pPubKey u r t mj alpha isLess) :
    ∃ tauList, calcTne pPubKey u r mj alpha t isLess = .ok tauList := by
  have hroot : ∀ i ∈ List.range iteration, ∃ y, calcTneRoot pPubKey u r i = .ok y := by
    intro i hi
    obtain ⟨curU, curR, curT, hu, hr, -, hz, hs, -⟩ := h.root i <| List.mem_range.mp hi
    obtain ⟨x, hx⟩ := modExp_ok_iff.mpr ⟨hn, hz⟩
    obtain ⟨y, hy⟩ := modExp_ok_iff.mpr ⟨hn, hs⟩
    obtain ⟨xy, hxy⟩ := modMul_ok hn x y
    exact ⟨xy, by simpa [calcTneRoot, okOrElse, hu, hr, hx, hy] using hxy⟩
  have hproduct : ∀ i ∈ List.range iteration, ∀ q, ∃ q', calcTneProduct pPubKey u t q i = .ok q' := by
    intro i hi q
    obtain ⟨curU, curR, curT, hu, -, ht, -, -, hpow⟩ := h.root i <| List.mem_range.mp hi
    obtain ⟨power, hpower⟩ := modExp_ok_iff.mpr ⟨hn, hpow⟩
    exact ⟨power * q, by simp [calcTneProduct, okOrElse, hu, ht, hpower]⟩
  obtain ⟨roots, hroots⟩ := mapM_ok hroot
  obtain ⟨delta, hdelta, hsDelta⟩ := h.delta
  obtain ⟨x, hx⟩ := modExp_ok_iff.mpr ⟨hn, h.mj⟩
  obtain ⟨y, hy⟩ := modExp_ok_iff.mpr ⟨hn, hsDelta⟩
  obtain ⟨tTau, htTau⟩ := modMul_ok hn x y
  obtain ⟨q, hq⟩ := foldlM_ok hproduct 1
  obtain ⟨power, hpower⟩ := modExp_ok_iff.mpr ⟨hn, h.alpha⟩
  obtain ⟨tau, htau⟩ := modMul_ok hn power q
  exact ⟨roots ++ [tTau, tau], by
    simp [calcTne, okOrElse, hroots, hdelta, hx, hy, htTau, hq, hpower, htau]⟩

end CalcTne

section FourSquares

-- No root is larger than the number that is decomposed.
structure Roots.Bounded (roots : Roots) (b : ℕ) : Prop where
  r0 : roots.r0 ≤ b
  r1 : roots.r1 ≤ b
  r2 : roots.r2 ≤ b
  r3 : roots.r3 ≤ b

theorem Roots.bounded (h₀ : r₀ ≤ b) (h₁ : r₁ ≤ b) (h₂ : r₂ ≤ b) (h₃ : r₃ ≤ b) :
    Roots.Bounded ⟨r₀, r₁, r₂, r₃⟩ b :=
  ⟨h₀, h₁, h₂, h₃⟩

theorem largestSquareLessThan_le (h : d ≤ b) : largestSquareLessThan d ≤ b :=
  (Nat.sqrt_le_self d).trans h

theorem fourSquaresLoop2_bounded (hd : d ≤ b) (hk : k ≤ b) (h : roots.Bounded b) :
    (fourSquaresLoop2 d roots k).2.Bounded b := by
  induction k generalizing roots
  case zero => exact h
  case succ k hi =>
    have hsqrt : largestSquareLessThan (d - roots.r0 ^ 2 - roots.r1 ^ 2 - (k + 1) ^ 2) ≤ b :=
      largestSquareLessThan_le (by omega)
    simp only [fourSquaresLoop2]
    split
    · exact ⟨h.r0, h.r1, hk, Nat.zero_le _⟩
    · split
      · exact ⟨h.r0, h.r1, hk, hsqrt⟩
      · exact hi (Nat.le_of_succ_le hk) ⟨h.r0, h.r1, hk, hsqrt⟩

theorem fourSquaresLoop1_bounded (hd : d ≤ b) (hj : j ≤ b) (h : roots.Bounded b) :
    (fourSquaresLoop1 d roots j).2.Bounded b := by
  induction j generalizing roots
  case zero => exact h
  case succ j hi =>
    have hsqrt : largestSquareLessThan (d - roots.r0 ^ 2 - (j + 1) ^ 2) ≤ b :=
      largestSquareLessThan_le (by omega)
    simp only [fourSquaresLoop1]
    split
    · exact ⟨h.r0, hj, Nat.zero_le _, Nat.zero_le _⟩
    · have hloop := fourSquaresLoop2_bounded hd hsqrt (Roots.bounded h.r0 hj hsqrt h.r3)
      split
      case h_1 heq => exact heq ▸ hloop
      case h_2 heq =>
        rw [heq] at hloop
        exact hi (Nat.le_of_succ_le hj) hloop

theorem fourSquaresLoop0_bounded (hd : d ≤ b) (hi : i ≤ b) (h : roots.Bounded b) :
    (fourSquaresLoop0 d roots i).2.Bounded b := by
  induction i generalizing roots
  case zero => exact h
  case succ i ih =>
    have hsqrt : largestSquareLessThan (d - (i + 1) ^ 2) ≤ b := largestSquareLessThan_le (by omega)
    simp only [fourSquaresLoop0]
    split
    · exact ⟨hi, Nat.zero_le _, Nat.zero_le _, Nat.zero_le _⟩
    · have hloop := fourSquaresLoop1_bounded hd hsqrt (Roots.bounded hi hsqrt h.r2 h.r3)
      split
      case h_1 heq => exact heq ▸ hloop
      case h_2 heq =>
        rw [heq] at hloop
        exact ih (Nat.le_of_succ_le hi) hloop

theorem fourSquares_ok (h : 0 ≤ delta.toInt) : ∃ u, fourSquares delta = .ok u := by
  simp [fourSquares, not_lt.mpr h]

theorem fourSquares_eq_ok (h : fourSquares delta = .ok u) (hi : i < iteration) :
    ∃ x : ℕ, u.lookup (toString i) = some (x : ℤ) ∧ x ≤ 2 ^ 31 := by
  unfold fourSquares at h
  split at h
  case isTrue => cases h
  case isFalse hneg =>
    have hd : delta.toInt.toNat ≤ 2 ^ 31 := by
      have hlt := delta.toInt_lt
      omega
    have hr0 := largestSquareLessThan_le hd
    have hbound := fourSquaresLoop0_bounded hd hr0
      (Roots.bounded hr0 (Nat.zero_le _) (Nat.zero_le _) (Nat.zero_le _))
    injection h with h
    generalize (fourSquaresLoop0 delta.toInt.toNat _ _).2 = roots at h hbound
    have hcases : i = 0 ∨ i = 1 ∨ i = 2 ∨ i = 3 := by unfold iteration at hi; omega
    subst h
    obtain rfl | rfl | rfl | rfl := hcases
    · exact ⟨roots.r0, rfl, hbound.r0⟩
    · exact ⟨roots.r1, rfl, hbound.r1⟩
    · exact ⟨roots.r2, rfl, hbound.r2⟩
    · exact ⟨roots.r3, rfl, hbound.r3⟩

theorem fourSquares_bounds (h : fourSquares delta = .ok u) (hi : i < iteration) :
    0 ≤ exponent u i ∧ exponent u i ≤ 2 ^ 31 := by
  obtain ⟨x, hx, hle⟩ := fourSquares_eq_ok h hi
  rw [exponent, exponents_eq hx]
  exact ⟨Int.natCast_nonneg x, Int.ofNat_le.mpr hle⟩

end FourSquares
end Ursa
