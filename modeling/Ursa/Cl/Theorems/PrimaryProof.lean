import Ursa.Cl.Theorems.Helpers
import Ursa.Cl.Theorems.Predicate
import Ursa.Cl.Verifier

namespace Ursa

open BigNumber UrsaCryptoResult
open ClKey (RangeExponents)

namespace ProofVerifier

variable {env : Env} {pPubKey : CredentialPrimaryPublicKey} {K : UnitKey pPubKey}

section Equality

variable {proof : PrimaryEqualProof} {a : (ZMod pPubKey.n.natAbs)ˣ} {cHash : ℤ}

theorem verifyRevealedAttr_eq_ok (K : UnitKey pPubKey)
    (h : verifyRevealedAttr pPubKey rar entry = .ok y) :
    (y : ZMod pPubKey.n.natAbs) =
      ↑(K.r entry.1 ^ (entry.2 : ℤ)) * (rar : ZMod pPubKey.n.natAbs) := by
  simp only [verifyRevealedAttr, bind_eq_ok_iff, okOrElse_eq_ok_iff] at h
  obtain ⟨curR, hr, power, hp, h⟩ := h
  rw [modMul_cast h, modExp_unit hp (K.r_eq _ _ hr)]

-- The factors that the verifier computes itself: `a_prime ^ (2 ^ 596)` and the revealed values.
def revealedFactor (K : UnitKey pPubKey) (a : (ZMod pPubKey.n.natAbs)ˣ)
    (revealedAttrs : BTreeMap BigNumber) : (ZMod pPubKey.n.natAbs)ˣ :=
  a ^ largeEStartValue * K.attributes (exponents revealedAttrs) revealedAttrs.keys

theorem verifyEquality_eq_ok (K : UnitKey pPubKey)
    (ha : (proof.aPrime : ZMod pPubKey.n.natAbs) = a)
    (h : verifyEquality env pPubKey proof cHash cs ncs spr = .ok taus) :
    ∃ tau : ℤ, taus = [tau] ∧ (tau : ZMod pPubKey.n.natAbs) =
      K.signatureTau (K.z / revealedFactor K a proof.revealedAttrs) a proof.e proof.v proof.m2
        (exponents proof.m) (unrevealedAttrs cs ncs spr) cHash := by
  simp only [verifyEquality, bind_eq_ok_iff, pure_eq_ok_iff] at h
  obtain ⟨t₁, ht₁, x, hx, rar, hrar, quotient, hq, inverse, hinv, t₂, ht₂, tau, htau, rfl⟩ := h
  refine ⟨tau, rfl, ?_⟩
  have hprod := foldlM_prod (fun b : BigNumber => (b : ZMod pPubKey.n.natAbs)) _
    (fun entry _ b b' hb => verifyRevealedAttr_eq_ok K hb) hrar
  have hattrs : (proof.revealedAttrs.iter.map fun entry =>
      ((K.r entry.1 ^ (entry.2 : ℤ) : (ZMod pPubKey.n.natAbs)ˣ) : ZMod pPubKey.n.natAbs)).prod =
      K.attributes (exponents proof.revealedAttrs) proof.revealedAttrs.keys := by
    rw [ClKey.attributes, Units.coe_prod]
    exact prod_iter proof.revealedAttrs fun k m =>
      ((K.r k ^ m : (ZMod pPubKey.n.natAbs)ˣ) : ZMod pPubKey.n.natAbs)
  rw [hattrs, modExp_unit hx ha, ← Units.val_mul, mul_comm] at hprod
  obtain ⟨w, hw, hquot⟩ := modDiv_eq_ok hq
  obtain rfl : revealedFactor K a proof.revealedAttrs = w := Units.ext <| hprod.symm.trans hw
  rw [K.z_eq, ← Units.val_mul, ← div_eq_mul_inv] at hquot
  rw [modMul_cast htau, calcTeq_eq_ok K ha ht₁, modExp_unit ht₂ (inverse_unit hinv hquot),
    ← Units.val_mul, mul_comm, inv_zpow, ClKey.signatureTau]

end Equality

section Predicate

variable {proof : PrimaryPredicateInequalityProof} {cHash : ℤ}
variable {T : String → (ZMod pPubKey.n.natAbs)ˣ}

theorem withChallenge_eq_ok {b : (ZMod pPubKey.n.natAbs)ˣ}
    (hb : ((base : ℤ) : ZMod pPubKey.n.natAbs) = b)
    (h : withChallenge base cHash tau pPubKey.n = .ok y) :
    (y : ZMod pPubKey.n.natAbs) = ↑(b ^ cHash)⁻¹ * (tau : ZMod pPubKey.n.natAbs) := by
  simp only [withChallenge, bind_eq_ok_iff] at h
  obtain ⟨power, hp, inverse, hinv, h⟩ := h
  rw [modMul_cast h, inverse_unit hinv (modExp_unit hp hb)]

-- The bound of the predicate and the commitment to the difference, put together as the direction
-- of the comparison asks for.
def boundFactor (K : UnitKey pPubKey) (predicate : Predicate) (delta : (ZMod pPubKey.n.natAbs)ˣ) :
    (ZMod pPubKey.n.natAbs)ˣ :=
  if predicate.isLess then K.z ^ predicate.getDeltaPrime * delta⁻¹
  else K.z ^ predicate.getDeltaPrime * delta

-- The exponents of one inequality proof.
def neExponents (proof : PrimaryPredicateInequalityProof) : RangeExponents :=
  rangeExponents proof.u proof.r proof.mj proof.alpha proof.predicate.isLess

-- The values of `calcTne`, one by one.
theorem tau_cast {n : ℤ} {tauList : List BigNumber} {us : List (ZMod n.natAbs)ˣ} {tau : BigNumber}
    {u : (ZMod n.natAbs)ˣ} {i : ℕ}
    (hcast : tauList.map (fun tau : BigNumber => (tau : ZMod n.natAbs)) = us.map (↑))
    (hidx : tauList[i]? = some tau) (hi : us[i]? = some u) : (tau : ZMod n.natAbs) = u := by
  have hget := congrArg (·[i]?) hcast
  simpa [hidx, hi] using hget

theorem directDelta_eq_ok {delta deltaPrime : ℤ} {w : (ZMod pPubKey.n.natAbs)ˣ}
    (h : directDelta isLess delta pPubKey.n = .ok deltaPrime)
    (hw : (delta : ZMod pPubKey.n.natAbs) = w) :
    (deltaPrime : ZMod pPubKey.n.natAbs) = ↑(if isLess then w⁻¹ else w) := by
  unfold directDelta at h
  split at h
  case isTrue hl => rw [if_pos hl, inverse_unit h hw]
  case isFalse hl =>
    injection h with h
    rw [if_neg hl, ← h, hw]

theorem verifyNePredicate_eq_ok (K : UnitKey pPubKey) (hT : StandsFor pPubKey.n proof.t T)
    (h : verifyNePredicate pPubKey proof cHash = .ok taus) :
    taus.map (fun tau : BigNumber => (tau : ZMod pPubKey.n.natAbs)) =
      (K.rangeTaus (fun i => T (toString i)) (T "DELTA")
        (boundFactor K proof.predicate (T "DELTA")) (neExponents proof) iteration cHash).map
          (↑) := by
  simp only [verifyNePredicate, bind_eq_ok_iff, okOrElse_eq_ok_iff, index_eq_ok_iff,
    pure_eq_ok_iff] at h
  obtain ⟨tauList, htne, roots, hroots, delta, hdelta, deltaPrime, hprime, bound, hbound, tau₄,
    hidx₄, tauDelta, htauDelta, tau₅, hidx₅, tauProduct, htauProduct, rfl⟩ := h
  have hcast := calcTne_eq_ok K hT htne
  have hfactor : ((bound * deltaPrime : ℤ) : ZMod pPubKey.n.natAbs) =
      boundFactor K proof.predicate (T "DELTA") := by
    rw [Int.cast_mul, modExp_unit hbound K.z_eq, directDelta_eq_ok hprime (hT _ _ hdelta),
      boundFactor]
    split <;> simp
  have hroot : ∀ i ∈ List.range iteration, ∀ y : BigNumber,
      verifyNeRoot pPubKey proof.t cHash tauList i = .ok y →
      (y : ZMod pPubKey.n.natAbs) = ↑((T (toString i) ^ cHash)⁻¹ *
        K.commit ((neExponents proof).u i) ((neExponents proof).r i)) := by
    intro i hi y hy
    simp only [verifyNeRoot, bind_eq_ok_iff, okOrElse_eq_ok_iff, index_eq_ok_iff] at hy
    obtain ⟨curT, ht, tau, hidx, hy⟩ := hy
    have htau : (tau : ZMod pPubKey.n.natAbs) =
        K.commit ((neExponents proof).u i) ((neExponents proof).r i) := by
      refine tau_cast hcast hidx ?_
      have hlt := List.mem_range.mp hi
      rw [List.getElem?_append_left (by simpa using hlt), List.getElem?_map,
        List.getElem?_range hlt]
      rfl
    rw [withChallenge_eq_ok (hT _ _ ht) hy, htau, Units.val_mul]
  have h₄ : (tau₄ : ZMod pPubKey.n.natAbs) =
      K.commit (neExponents proof).mj (neExponents proof).rho :=
    tau_cast hcast hidx₄ rfl
  have h₅ : (tau₅ : ZMod pPubKey.n.natAbs) =
      K.productTau (fun i => T (toString i)) (neExponents proof) iteration :=
    tau_cast hcast hidx₅ rfl
  rw [List.map_append, mapM_map _ _ hroot hroots, ClKey.rangeTaus, List.map_append, List.map_map]
  simp only [List.map_cons, List.map_nil, withChallenge_eq_ok hfactor htauDelta,
    withChallenge_eq_ok (hT _ _ hdelta) htauProduct, h₄, h₅, ← Units.val_mul]
  rfl

end Predicate

section Soundness

variable {c c' k : ℤ} {p p' : PrimaryProof} {H : Subgroup (ZMod pPubKey.n.natAbs)ˣ}

-- `k` divides every difference of the exponents of the signature.
structure EqualDivides (k : ℤ) (unrevealed : Finset String) (p p' : PrimaryEqualProof) : Prop where
  e : k ∣ p.e - p'.e
  v : k ∣ p.v - p'.v
  m2 : k ∣ p.m2 - p'.m2
  m : ∀ a ∈ unrevealed, k ∣ exponents p.m a - exponents p'.m a

-- Two answers for one predicate and its commitments.
structure InequalityDivides (k : ℤ) (ne ne' : PrimaryPredicateInequalityProof) : Prop where
  predicate : ne.predicate = ne'.predicate
  t : ne.t = ne'.t
  divides : RangeExponents.Divides iteration k (neExponents ne) (neExponents ne')

-- What two answers for one predicate open: either the distance to the bound is a sum of four
-- squares, or `z` and `s` are related.
def OpensPredicate (K : UnitKey pPubKey) (k : ℤ) (ne ne' : PrimaryPredicateInequalityProof) :
    Prop :=
  let w := (neExponents ne).quotient (neExponents ne') k
  let x := ne.predicate.distance w.mj - w.sumOfSquares iteration
  let y := (if ne.predicate.isLess then -w.rho else w.rho) - (w.alpha + w.sumOfProducts iteration)
  ne.predicate.distance w.mj = w.u 0 ^ 2 + w.u 1 ^ 2 + w.u 2 ^ 2 + w.u 3 ^ 2 ∧
      (ne.predicate.NoOverflow → ne.predicate.Holds w.mj) ∨
    (x, y) ≠ (0, 0) ∧ K.z ^ x * K.s ^ y = 1

theorem sumOfSquares_iteration (w : RangeExponents) :
    w.sumOfSquares iteration = w.u 0 ^ 2 + w.u 1 ^ 2 + w.u 2 ^ 2 + w.u 3 ^ 2 := by
  simp [RangeExponents.sumOfSquares, iteration, Finset.sum_range_succ, pow_two]

theorem verifyPrimaryProof_eq_ok
    (h : verifyPrimaryProof env pPubKey c p cs ncs spr = .ok taus) :
    ∃ tau tHats, verifyEquality env pPubKey p.eqProof c cs ncs spr = .ok tau ∧
      p.neProofs.mapM (verifyNePredicate pPubKey · c) = .ok tHats ∧ taus = tau ++ tHats.flatten := by
  simp only [verifyPrimaryProof, bind_eq_ok_iff, pure_eq_ok_iff] at h
  obtain ⟨tau, htau, tHats, htHats, h⟩ := h
  exact ⟨tau, tHats, htau, htHats, h.symm⟩

theorem verifyNePredicate_length (h : verifyNePredicate pPubKey ne c = .ok taus) :
    taus.length = iteration + 2 := by
  simp only [verifyNePredicate, bind_eq_ok_iff, pure_eq_ok_iff] at h
  obtain ⟨_, _, roots, hroots, _, _, _, _, _, _, _, _, _, _, _, _, _, _, rfl⟩ := h
  simpa using (mapM_eq_ok_iff.mp hroots).length_eq.symm

-- Every predicate adds the same number of values, so equal lists are equal predicate by predicate.
theorem tHats_eq (hlen : p.neProofs.length = p'.neProofs.length)
    (h : p.neProofs.mapM (verifyNePredicate pPubKey · c) = .ok tHats)
    (h' : p'.neProofs.mapM (verifyNePredicate pPubKey · c') = .ok tHats')
    (heq : tHats.flatten = tHats'.flatten) : tHats = tHats' := by
  refine List.eq_iff_flatten_eq.mpr ⟨heq, ?_⟩
  have hl := mapM_map List.length (fun _ => iteration + 2)
    (fun _ _ _ hb => verifyNePredicate_length hb) h
  have hl' := mapM_map List.length (fun _ => iteration + 2)
    (fun _ _ _ hb => verifyNePredicate_length hb) h'
  rw [hl, hl', List.map_const', List.map_const', hlen]

theorem boundFactor_mem (hK : K.Within H) (hd : delta ∈ H) : boundFactor K predicate delta ∈ H := by
  unfold boundFactor
  split
  · exact mul_mem (zpow_mem hK.z _) (inv_mem hd)
  · exact mul_mem (zpow_mem hK.z _) hd

-- The commitments of one predicate as units in `H`.
theorem exists_standsFor
    (ht : ∀ k x, t.lookup k = some x → ∃ u ∈ H, ((x : ℤ) : ZMod pPubKey.n.natAbs) = ↑u) :
    ∃ T : String → (ZMod pPubKey.n.natAbs)ˣ, (∀ k, T k ∈ H) ∧ StandsFor pPubKey.n t T := by
  have hkey : ∀ k, ∃ u ∈ H, ∀ x, t.lookup k = some x → ((x : ℤ) : ZMod pPubKey.n.natAbs) = ↑u := by
    intro k
    cases hk : t.lookup k
    case none => exact ⟨1, one_mem H, fun _ h => by cases h⟩
    case some x =>
      obtain ⟨u, hu, hx⟩ := ht k x hk
      refine ⟨u, hu, fun y hy => ?_⟩
      injection hy with hy
      exact hy ▸ hx
  choose T hT hTeq using hkey
  exact ⟨T, hT, hTeq⟩

theorem relation_of_opens {t : ℕ → (ZMod pPubKey.n.natAbs)ˣ} {w : RangeExponents}
    (h : K.Opens t delta (boundFactor K predicate delta) w n) :
    K.z ^ (predicate.distance w.mj - w.sumOfSquares n) *
      K.s ^ ((if predicate.isLess then -w.rho else w.rho) - (w.alpha + w.sumOfProducts n)) = 1 := by
  unfold boundFactor at h
  unfold Predicate.distance
  split
  case isTrue hl => exact (if_pos hl ▸ h).relation_of_less
  case isFalse hl => exact (if_neg hl ▸ h).relation_of_greater

theorem opensPredicate_of_eq_ok (hK : K.Within H)
    (hinj : Set.InjOn (· ^ (c - c')) (H : Set (ZMod pPubKey.n.natAbs)ˣ))
    (ht : ∀ k x, ne.t.lookup k = some x → ∃ u ∈ H, ((x : ℤ) : ZMod pPubKey.n.natAbs) = ↑u)
    (hd : InequalityDivides (c - c') ne ne') (h : verifyNePredicate pPubKey ne c = .ok taus)
    (h' : verifyNePredicate pPubKey ne' c' = .ok taus) : OpensPredicate K (c - c') ne ne' := by
  obtain ⟨T, hTH, hT⟩ := exists_standsFor ht
  have htaus := (verifyNePredicate_eq_ok K hT h).symm.trans <|
    verifyNePredicate_eq_ok K (hd.t ▸ hT) h'
  rw [← hd.predicate] at htaus
  have hopens := ClKey.rangeTaus_extract hK hinj (fun i _ => hTH _) (hTH _)
    (boundFactor_mem hK (hTH _)) hd.divides.scale
    (List.map_injective_iff.mpr Units.val_injective htaus)
  unfold OpensPredicate
  intro w x y
  by_cases hxy : (x, y) = (0, 0)
  case neg => exact .inr ⟨hxy, relation_of_opens hopens⟩
  have hdist : ne.predicate.distance w.mj = w.u 0 ^ 2 + w.u 1 ^ 2 + w.u 2 ^ 2 + w.u 3 ^ 2 := by
    rw [← sumOfSquares_iteration]
    exact sub_eq_zero.mp (congrArg Prod.fst hxy)
  refine .inl ⟨hdist, fun hfit => (Predicate.distance_nonneg_iff hfit).mp ?_⟩
  rw [hdist]
  positivity

-- Two answers under the challenges `c` and `c'` to the same commitments open a representation of `z`
-- over the attributes, and every predicate.
theorem primaryProof_specialSound (K : UnitKey pPubKey) (hK : K.Within H)
    (hinj : Set.InjOn (· ^ (c - c')) (H : Set (ZMod pPubKey.n.natAbs)ˣ))
    {a : (ZMod pPubKey.n.natAbs)ˣ} (ha : (p.eqProof.aPrime : ZMod pPubKey.n.natAbs) = a)
    (haH : a ∈ H)
    (ht : ∀ ne ∈ p.neProofs, ∀ k x, ne.t.lookup k = some x →
      ∃ u ∈ H, (x : ZMod pPubKey.n.natAbs) = ↑u)
    (haPrime : p.eqProof.aPrime = p'.eqProof.aPrime)
    (hrevealed : p.eqProof.revealedAttrs = p'.eqProof.revealedAttrs)
    (heq : EqualDivides (c - c') (unrevealedAttrs cs ncs spr) p.eqProof p'.eqProof)
    (hne : List.Forall₂ (InequalityDivides (c - c')) p.neProofs p'.neProofs)
    (h : verifyPrimaryProof env pPubKey c p cs ncs spr = .ok taus)
    (h' : verifyPrimaryProof env pPubKey c' p' cs ncs spr = .ok taus) :
    K.z = a ^ (largeEStartValue + (p.eqProof.e - p'.eqProof.e) / (c - c')) *
        K.s ^ ((p.eqProof.v - p'.eqProof.v) / (c - c')) *
        K.rctxt ^ ((p.eqProof.m2 - p'.eqProof.m2) / (c - c')) *
        (∏ k ∈ p.eqProof.revealedAttrs.keys, K.r k ^ exponents p.eqProof.revealedAttrs k) *
        ∏ k ∈ unrevealedAttrs cs ncs spr,
          K.r k ^ ((exponents p.eqProof.m k - exponents p'.eqProof.m k) / (c - c')) ∧
      List.Forall₂ (OpensPredicate K (c - c')) p.neProofs p'.neProofs := by
  obtain ⟨tau, tHats, htau, htHats, rfl⟩ := verifyPrimaryProof_eq_ok h
  obtain ⟨tau', tHats', htau', htHats', htaus⟩ := verifyPrimaryProof_eq_ok h'
  obtain ⟨x, rfl, hx⟩ := verifyEquality_eq_ok K ha htau
  obtain ⟨x', rfl, hx'⟩ := verifyEquality_eq_ok K (haPrime ▸ ha) htau'
  obtain ⟨rfl, hflat⟩ := List.cons.inj htaus
  obtain rfl := tHats_eq hne.length_eq htHats htHats' hflat
  constructor
  case right =>
    exact mapM_forall₂ (fun ne hmem ne' taus hd hb hb' =>
      opensPredicate_of_eq_ok hK hinj (ht ne hmem) hd hb hb') hne htHats htHats'
  case left =>
    have hq : K.z / revealedFactor K a p.eqProof.revealedAttrs ∈ H :=
      div_mem hK.z <| mul_mem (zpow_mem haH _) (ClKey.attributes_mem hK)
    have hsig := ClKey.signatureTau_extract hK hinj hq haH
      (Int.mul_ediv_cancel' heq.e).symm (Int.mul_ediv_cancel' heq.v).symm
      (Int.mul_ediv_cancel' heq.m2).symm (fun k hk => (Int.mul_ediv_cancel' <| heq.m k hk).symm)
      (Units.ext <| hx.symm.trans <| hrevealed ▸ hx')
    rw [div_eq_iff_eq_mul] at hsig
    rw [hsig, ClKey.represent, revealedFactor, ClKey.attributes, ClKey.attributes, zpow_add]
    simp only [mul_comm, mul_left_comm, mul_assoc]

section Mod77

def pPubKeyMod77 : CredentialPrimaryPublicKey where
  n := 77
  s := 15
  r := ((∅ : HashMap BigNumber).insert "age" 16).insert "height" 25
  rctxt := 9
  z := 37

def unitMod77 (x : ℕ) (h : x.Coprime 77) : (ZMod pPubKeyMod77.n.natAbs)ˣ :=
  ZMod.unitOfCoprime x h

def unitKeyMod77 : UnitKey pPubKeyMod77 where
  s := unitMod77 15 (by decide)
  z := unitMod77 37 (by decide)
  rctxt := unitMod77 9 (by decide)
  r k := if k = "age" then unitMod77 16 (by decide) else unitMod77 25 (by decide)
  s_eq := rfl
  z_eq := rfl
  rctxt_eq := rfl
  r_eq k x h := by
    by_cases hage : k = "age"
    case pos =>
      subst hage
      obtain rfl : 16 = x := by simpa [pPubKeyMod77, Finmap.lookup_insert_of_ne] using h
      rfl
    case neg =>
      by_cases hheight : k = "height"
      case pos =>
        subst hheight
        obtain rfl : 25 = x := by simpa [pPubKeyMod77] using h
        rfl
      case neg => simp [pPubKeyMod77, hage, hheight, Finmap.lookup_insert_of_ne] at h

-- The four numbered responses of one map.
def responsesMod77 (f : ℕ → ℤ) : HashMap BigNumber :=
  (List.range iteration).foldl (fun m i => m.insert (toString i) (f i)) ∅

-- The answer to the challenge `c` of a prover who is of age 20, for `age >= 18` and `height = 6`.
def answerMod77 (c : ℤ) : PrimaryProof where
  eqProof :=
    { revealedAttrs := (∅ : BTreeMap BigNumber).insert "height" 6
      aPrime := 36
      e := c * 3 + 11
      v := c * 5 + 13
      m := (∅ : HashMap BigNumber).insert "age" (c * 20 + 17)
      m2 := c * 2 + 5 }
  neProofs :=
    [{ u := responsesMod77 fun i => c * [1, 1, 0, 0].getD i 0 + i
       r := (responsesMod77 fun i => c * [3, 1, 4, 1].getD i 0 + 2 * i).insert "DELTA" (c * 2 + 9)
       mj := c * 20 + 17
       alpha := c * -2 + 8
       t := (responsesMod77 fun i => [58, 16, 36, 15].getD i 0).insert "DELTA" 25
       predicate := { attrName := "age", pType := .GE, value := 18 } },
     { u := responsesMod77 fun i => c * [1, 0, 0, 0].getD i 0 + i
       r := (responsesMod77 fun i => c * [2, 5, 3, 1].getD i 0 + 2 * i).insert "DELTA" (c * 4 + 9)
       mj := c * 20 + 17
       alpha := c * 2 + 8
       t := (responsesMod77 fun i => [9, 1, 64, 15].getD i 0).insert "DELTA" 23
       predicate := { attrName := "age", pType := .LE, value := 21 } }]

theorem zpow_injective_mod77 : Function.Injective fun x : (ZMod 77)ˣ => x ^ (9 - 2 : ℤ) := by
  intro x y h
  have hone (x : (ZMod 77)ˣ) : x ^ 60 = 1 := ZMod.pow_totient x
  have hroot (x : (ZMod 77)ˣ) : x = (x ^ (9 - 2 : ℤ)) ^ 43 := by
    calc x
      _ = (x ^ 60) ^ 5 * x       := by rw [hone, one_pow, one_mul]
      _ = (x ^ (9 - 2 : ℤ)) ^ 43 := by group
  rw [hroot x, hroot y]
  exact congrArg (· ^ 43) h

theorem primaryProof_specialSound_mod77 :
    unitKeyMod77.z = unitMod77 36 (by decide) ^ (largeEStartValue + 3) * unitKeyMod77.s ^ 5 *
      unitKeyMod77.rctxt ^ 2 * unitKeyMod77.r "height" ^ 6 * unitKeyMod77.r "age" ^ 20 ∧
      List.Forall₂ (OpensPredicate unitKeyMod77 7) (answerMod77 9).neProofs
        (answerMod77 2).neProofs := by
  let env : Env := .sorted (fun _ => List.replicate 32 0) fun _ => List.length_replicate
  let spr : SubProofRequest := ⟨{"height"}, ∅⟩
  have h : verifyPrimaryProof env pPubKeyMod77 9 (answerMod77 9) ⟨{"age", "height"}⟩ ⟨∅⟩ spr =
      .ok [37, 1, 9, 4, 36, 4, 37, 1, 9, 4, 36, 53, 71] := by
    decide +kernel
  have h' : verifyPrimaryProof env pPubKeyMod77 2 (answerMod77 2) ⟨{"age", "height"}⟩ ⟨∅⟩ spr =
      .ok [37, 1, 9, 4, 36, 4, 37, 1, 9, 4, 36, 53, 71] := by
    decide +kernel
  have heq : EqualDivides (9 - 2) (unrevealedAttrs ⟨{"age", "height"}⟩ ⟨∅⟩ spr)
      (answerMod77 9).eqProof (answerMod77 2).eqProof := by
    constructor <;> decide +kernel
  have hne : List.Forall₂ (InequalityDivides (9 - 2)) (answerMod77 9).neProofs
      (answerMod77 2).neProofs := by
    refine .cons ⟨rfl, rfl, ?_⟩ <| .cons ⟨rfl, rfl, ?_⟩ .nil <;> constructor <;> decide +kernel
  have ha : ((answerMod77 9).eqProof.aPrime : ZMod pPubKeyMod77.n.natAbs) =
      unitMod77 36 (by decide) := rfl
  have haPrime : (answerMod77 9).eqProof.aPrime = (answerMod77 2).eqProof.aPrime := rfl
  have hrevealed : (answerMod77 9).eqProof.revealedAttrs = (answerMod77 2).eqProof.revealedAttrs :=
    rfl
  have ht : ∀ ne ∈ (answerMod77 9).neProofs, ∀ k x, ne.t.lookup k = some x →
      ∃ u ∈ (⊤ : Subgroup (ZMod pPubKeyMod77.n.natAbs)ˣ),
        (x : ZMod pPubKeyMod77.n.natAbs) = ↑u := by
    have hcoprime : ∀ ne ∈ (answerMod77 9).neProofs, ∀ k ∈ ne.t.keys,
        Int.gcd (exponents ne.t k) 77 = 1 := by
      decide +kernel
    intro ne hne k x hx
    have hk := hcoprime ne hne k <| Finmap.mem_keys.mpr <| Finmap.mem_of_lookup_eq_some hx
    rw [exponents_eq hx] at hk
    obtain ⟨u, hu⟩ := ModArith.isUnit_cast_iff.mpr hk
    exact ⟨u, trivial, hu.symm⟩
  have hK : unitKeyMod77.Within ⊤ := by constructor <;> simp
  obtain ⟨hz, hopens⟩ := primaryProof_specialSound unitKeyMod77 hK zpow_injective_mod77.injOn ha
    trivial ht haPrime hrevealed heq hne h h'
  have hkeys : (answerMod77 9).eqProof.revealedAttrs.keys = {"height"} := by decide +kernel
  have hattrs : unrevealedAttrs ⟨{"age", "height"}⟩ ⟨∅⟩ spr = {"age"} := by decide +kernel
  rw [hkeys, hattrs, Finset.prod_singleton, Finset.prod_singleton] at hz
  exact ⟨hz, hopens⟩

end Mod77

end Soundness
end ProofVerifier
end Ursa
