import Ursa.Cl.Theorems.Responses

namespace Ursa

open BigNumber UrsaCryptoResult StatDist

variable {C : Curve} {env : Env}

-- What is asked for, and the public data of the credential that answers it.
structure Presentation (C : Curve) where
  commonAttributes : List String
  pubKey : CredentialPublicKey C
  revReg : Option (RevocationRegistry C)
  credentialSchema : CredentialSchema
  nonCredentialSchema : NonCredentialSchema
  subProofRequest : SubProofRequest

-- One credential, as its holder has it.
structure Holding (C : Curve) where
  signature : CredentialSignature C
  values : CredentialValues
  witness : Option (Witness C)

structure PresentationDraws (C : Curve) where
  common : String → BnRand largeMVect
  subProof : SubProofDraws C

@[simp]
theorem ProofBuilder.commitNonRevocationPart_initProofs (builder : ProofBuilder C) :
    (builder.commitNonRevocationPart part).initProofs = builder.initProofs := by
  cases part <;> rfl

@[simp]
theorem ProofBuilder.commitNonRevocationPart_commonAttributes (builder : ProofBuilder C) :
    (builder.commitNonRevocationPart part).commonAttributes = builder.commonAttributes := by
  cases part <;> rfl

-- A non-revocation part is made just if all four of its parts are there.
theorem ProofBuilder.initNonRevocationPart_cases (signature : CredentialSignature C)
    (pubKey : CredentialPublicKey C) (revReg : Option (RevocationRegistry C))
    (witness : Option (Witness C)) (draws : SubProofDraws C) :
    (∃ rCred rReg rPubKey w, signature.rCredential = some rCred ∧ revReg = some rReg ∧
      pubKey.rKey = some rPubKey ∧ witness = some w ∧
      initNonRevocationPart signature pubKey revReg witness draws =
        some (initNonRevocationProof rCred rReg rPubKey w draws.cListParams
          draws.tauListParams)) ∨
    (signature.rCredential = none ∨ revReg = none ∨ pubKey.rKey = none ∨ witness = none) ∧
      initNonRevocationPart signature pubKey revReg witness draws = none := by
  unfold initNonRevocationPart
  split
  case h_1 h₁ h₃ => exact .inl ⟨_, _, _, _, h₁, rfl, h₃, rfl, rfl⟩
  case h_2 hne =>
    refine .inr ⟨?_, rfl⟩
    by_contra hsome
    simp only [not_or, Option.ne_none_iff_exists'] at hsome
    obtain ⟨⟨_, h₁⟩, ⟨_, h₂⟩, ⟨_, h₃⟩, _, h₄⟩ := hsome
    exact hne _ _ _ _ h₁ h₂ h₃ h₄

namespace Presentation

variable (S : Presentation C) (H : Holding C) (draws : PresentationDraws C)

abbrev unrevealed : Finset String :=
  ProofBuilder.unrevealedAttrs S.credentialSchema S.nonCredentialSchema S.subProofRequest

def nonRevocationPart : Option (NonRevocInitProof C) :=
  ProofBuilder.initNonRevocationPart H.signature S.pubKey S.revReg H.witness draws.subProof

-- The equality proof that the builder makes for one credential and a given challenge.
def presentEqual (env : Env) (c : BigNumber) : UrsaCryptoResult PrimaryEqualProof := do
  let initProof ← ProofBuilder.initEqProof env
    (ProofBuilder.commonBlindings S.commonAttributes draws.common) S.pubKey.pKey
    H.signature.pCredential S.credentialSchema S.nonCredentialSchema S.subProofRequest
    (ProofBuilder.sharedM2Tilde (S.nonRevocationPart H draws)) draws.subProof.eqProof
  ProofBuilder.finalizeEqProof initProof c S.credentialSchema S.nonCredentialSchema H.values
    S.subProofRequest

def builder : ProofBuilder C :=
  S.commonAttributes.foldl (fun builder a => builder.addCommonAttribute a (draws.common a)) (.new C)

theorem builder_eq : S.builder draws =
    { ProofBuilder.new C with
      commonAttributes := ProofBuilder.commonBlindings S.commonAttributes draws.common } :=
  ProofBuilder.foldl_addCommonAttribute _ _

theorem finalizeSubProof_eq_ok {initProof : InitProof C}
    (h : ProofBuilder.finalizeSubProof c initProof = .ok subProof) :
    ProofBuilder.finalizeEqProof initProof.primaryInitProof.eqProof c initProof.credentialSchema
      initProof.nonCredentialSchema initProof.credentialValues initProof.subProofRequest =
        .ok subProof.primaryProof.eqProof := by
  simp only [ProofBuilder.finalizeSubProof, ProofBuilder.finalizePrimaryProof, bind_eq_ok_iff,
    pure_eq_ok_iff] at h
  obtain ⟨nonRevocProof, -, primaryProof, ⟨eqProof, heq, neProofs, -, rfl⟩, rfl⟩ := h
  exact heq

-- `presentEqual` is the part of the builder's run that the results about the responses are about.
theorem presentEqual_of_finalizeSubProof
    (hadd : (S.builder draws).addSubProofRequest env S.subProofRequest S.credentialSchema
      S.nonCredentialSchema H.signature H.values S.pubKey S.revReg H.witness draws.subProof =
        (.ok (), builder'))
    (hinit : initProof ∈ builder'.initProofs)
    (hfin : ProofBuilder.finalizeSubProof c initProof = .ok subProof) :
    S.presentEqual H draws env c = .ok subProof.primaryProof.eqProof := by
  rw [builder_eq] at hadd
  have heq := finalizeSubProof_eq_ok hfin
  unfold ProofBuilder.addSubProofRequest at hadd
  split at hadd
  case h_1 => cases hadd
  case h_2 =>
    simp only at hadd
    split at hadd
    case h_1 => cases hadd
    case h_2 primary hprimary =>
      simp only [Prod.mk.injEq, true_and] at hadd
      subst hadd
      simp only [ProofBuilder.initPrimaryProof, bind_eq_ok_iff, pure_eq_ok_iff] at hprimary
      obtain ⟨eqProof, hinitEq, neProofs, -, rfl⟩ := hprimary
      obtain rfl : initProof = _ := by
        simpa [ProofBuilder.commitNonRevocationPart_initProofs, ProofBuilder.new] using hinit
      rw [ProofBuilder.commitNonRevocationPart_commonAttributes] at hinitEq
      simpa [presentEqual, hinitEq, nonRevocationPart] using heq

-- Whether all four parts are there that a non-revocation proof is made of.
def hasNonRevocationPart : Bool :=
  H.signature.rCredential.isSome && S.revReg.isSome && S.pubKey.rKey.isSome && H.witness.isSome

theorem nonRevocationPart_eq_none (h : ¬S.hasNonRevocationPart H) :
    S.nonRevocationPart H draws = none := by
  obtain ⟨_, _, _, _, h₁, h₂, h₃, h₄, -⟩ | ⟨-, hnone⟩ :=
    ProofBuilder.initNonRevocationPart_cases H.signature S.pubKey S.revReg H.witness draws.subProof
  · simp [hasNonRevocationPart, h₁, h₂, h₃, h₄] at h
  · exact hnone

theorem sharedM2Tilde_eq (h : S.hasNonRevocationPart H) :
    ProofBuilder.sharedM2Tilde (S.nonRevocationPart H draws) =
      some (draws.subProof.tauListParams.m2.val : ℤ) := by
  obtain ⟨_, _, _, _, -, -, -, -, hsome⟩ | ⟨hnone, -⟩ :=
    ProofBuilder.initNonRevocationPart_cases H.signature S.pubKey S.revReg H.witness draws.subProof
  · rw [nonRevocationPart, hsome, ProofBuilder.sharedM2Tilde, Option.map_some,
      groupElementToBignum_eq, ProofBuilder.initNonRevocationProof]
  · simp only [hasNonRevocationPart, Bool.and_eq_true, Option.isSome_iff_ne_none] at h
    obtain ⟨⟨⟨h₁, h₂⟩, h₃⟩, h₄⟩ := h
    simp [h₁, h₂, h₃, h₄] at hnone

-- The draw that blinds one attribute.
def attrDraw (a : String) : BnRand largeMVect :=
  if a ∈ S.commonAttributes then draws.common a else draws.subProof.eqProof.mTilde a

def m2Blinding : ℤ :=
  if S.hasNonRevocationPart H then draws.subProof.tauListParams.m2.val
  else draws.subProof.eqProof.m2Tilde.value

-- What the public key and the values must have for a proof to be made at all.
structure Presentable : Prop where
  n : S.pubKey.pKey.n ≠ 0
  bases : ∀ a ∈ S.unrevealed, a ∈ S.pubKey.pKey.r
  values : ∀ a ∈ S.unrevealed ∪ S.subProofRequest.revealedAttrs, a ∈ H.values.attrsValues

variable {S H draws} {c : ℤ} {proof : PrimaryEqualProof}

theorem sharedM2Tilde_getD :
    (ProofBuilder.sharedM2Tilde (S.nonRevocationPart H draws)).getD
      draws.subProof.eqProof.m2Tilde.value = S.m2Blinding H draws := by
  unfold m2Blinding
  split
  case isTrue h => rw [sharedM2Tilde_eq _ _ _ h]; rfl
  case isFalse h => rw [nonRevocationPart_eq_none _ _ _ h]; rfl

theorem presentEqual_ok_iff :
    (∃ proof, S.presentEqual H draws env c = .ok proof) ↔ S.Presentable H := by
  have hcommon : ∀ a x, (ProofBuilder.commonBlindings S.commonAttributes draws.common).lookup a =
      some x → (0 : ℤ) ≤ x := by
    intro a x h
    rw [ProofBuilder.lookup_commonBlindings] at h
    split at h
    case isTrue => exact Option.some.inj h ▸ (draws.common a).value_nonneg
    case isFalse => cases h
  have hshared : ∀ x ∈ ProofBuilder.sharedM2Tilde (S.nonRevocationPart H draws), (0 : ℤ) ≤ x := by
    intro x hx
    obtain ⟨part, -, rfl⟩ := Option.map_eq_some_iff.mp hx
    rw [groupElementToBignum_eq]
    exact Int.natCast_nonneg _
  have hblinded : ∀ initProof, ProofBuilder.initEqProof env
      (ProofBuilder.commonBlindings S.commonAttributes draws.common) S.pubKey.pKey
      H.signature.pCredential S.credentialSchema S.nonCredentialSchema S.subProofRequest
      (ProofBuilder.sharedM2Tilde (S.nonRevocationPart H draws)) draws.subProof.eqProof =
        .ok initProof → ∀ a ∈ S.unrevealed, a ∈ initProof.mTilde := by
    intro initProof h a ha
    rw [(ProofBuilder.initEqProof_eq_ok h).2.2.2.2.1]
    exact Finmap.mem_of_lookup_eq_some <| ProofBuilder.lookup_getMtilde ha
  simp only [presentEqual, bind_eq_ok_iff]
  constructor
  case mp =>
    rintro ⟨proof, initProof, hinit, hfin⟩
    obtain ⟨hn, hbases⟩ := (ProofBuilder.initEqProof_ok_iff hcommon hshared).mp ⟨initProof, hinit⟩
    have hvalues := (ProofBuilder.finalizeEqProof_ok_iff <| hblinded _ hinit).mp ⟨proof, hfin⟩
    exact ⟨hn, hbases, hvalues⟩
  case mpr =>
    rintro ⟨hn, hbases, hvalues⟩
    obtain ⟨initProof, hinit⟩ := (ProofBuilder.initEqProof_ok_iff hcommon hshared).mpr ⟨hn, hbases⟩
    obtain ⟨proof, hfin⟩ := (ProofBuilder.finalizeEqProof_ok_iff <| hblinded _ hinit).mpr hvalues
    exact ⟨proof, initProof, hinit, hfin⟩

-- The responses of a proof: challenge times secret, plus the draw that blinds it.
theorem presentEqual_eq_ok (h : S.presentEqual H draws env c = .ok proof) :
    let sig := H.signature.pCredential
    proof.e = c * (sig.e - largeEStartValue) + draws.subProof.eqProof.eTilde.value ∧
      proof.v = c * (sig.v - sig.e * draws.subProof.eqProof.r.value) +
        draws.subProof.eqProof.vTilde.value ∧
      proof.m2 = c * sig.m2 + S.m2Blinding H draws ∧
      ∀ a ∈ S.unrevealed, ∃ value, H.values.attrsValues.lookup a = some value ∧
        proof.m.lookup a = some (c * value.value + (S.attrDraw draws a).value) := by
  simp only [presentEqual, bind_eq_ok_iff] at h
  obtain ⟨initProof, hinit, hfin⟩ := h
  obtain ⟨hETilde, hEPrime, hVTilde, hVPrime, hMTilde, hM2Tilde, hM2⟩ :=
    ProofBuilder.initEqProof_eq_ok hinit
  obtain ⟨he, hv, hm2, hm⟩ := ProofBuilder.finalizeEqProof_eq_ok hfin
  refine ⟨by rw [he, hETilde, hEPrime], by rw [hv, hVTilde, hVPrime], ?_, fun a ha => ?_⟩
  · rw [hm2, hM2, hM2Tilde, sharedM2Tilde_getD]
  · obtain ⟨mTilde, value, hmTilde, hvalue, hlookup⟩ := hm a ha
    refine ⟨value, hvalue, ?_⟩
    rw [hMTilde, ProofBuilder.lookup_getMtilde ha, ProofBuilder.lookup_commonBlindings] at hmTilde
    rw [hlookup, ← Option.some.inj hmTilde, attrDraw]
    split <;> rfl

end Presentation

namespace PresentationDraws

-- The same draws, but for one blinding.
def withETilde (draws : PresentationDraws C) (x : BnRand largeETilde) : PresentationDraws C :=
  let eqProof := { draws.subProof.eqProof with eTilde := x }
  { draws with subProof := { draws.subProof with eqProof } }

def withVTilde (draws : PresentationDraws C) (x : BnRand largeVTilde) : PresentationDraws C :=
  let eqProof := { draws.subProof.eqProof with vTilde := x }
  { draws with subProof := { draws.subProof with eqProof } }

-- Which of the two draws is used depends on whether `a` is a common attribute.
def withMTilde (draws : PresentationDraws C) (a : String) (x : BnRand largeMVect) :
    PresentationDraws C :=
  let mTilde := Function.update draws.subProof.eqProof.mTilde a x
  let eqProof := { draws.subProof.eqProof with mTilde }
  { common := Function.update draws.common a x, subProof := { draws.subProof with eqProof } }

def withM2Tilde (draws : PresentationDraws C) (x : BnRand largeMVect) : PresentationDraws C :=
  let eqProof := { draws.subProof.eqProof with m2Tilde := x }
  { draws with subProof := { draws.subProof with eqProof } }

def withNonRevocationM2 (draws : PresentationDraws C) (x : GroupOrderElement C) :
    PresentationDraws C :=
  let tauListParams := { draws.subProof.tauListParams with m2 := x }
  { draws with subProof := { draws.subProof with tauListParams } }

end PresentationDraws

namespace Presentation

variable (S : Presentation C) (H : Holding C) (draws : PresentationDraws C) (env : Env) (c : ℤ)

-- The distributions of the responses over the draw that blinds them.
noncomputable def eDist : PMF (UrsaCryptoResult BigNumber) :=
  drawn fun x => (·.e) <$> S.presentEqual H (draws.withETilde x) env c

noncomputable def vDist : PMF (UrsaCryptoResult BigNumber) :=
  drawn fun x => (·.v) <$> S.presentEqual H (draws.withVTilde x) env c

noncomputable def mDist (a : String) : PMF (UrsaCryptoResult (Option BigNumber)) :=
  drawn fun x => (·.m.lookup a) <$> S.presentEqual H (draws.withMTilde a x) env c

noncomputable def m2Dist : PMF (UrsaCryptoResult BigNumber) :=
  if S.hasNonRevocationPart H then
    drawn fun x => (·.m2) <$> S.presentEqual H (draws.withNonRevocationM2 x) env c
  else drawn fun x => (·.m2) <$> S.presentEqual H (draws.withM2Tilde x) env c

variable {S H draws env c}

-- A presentation never fails for the draws alone.
theorem map_presentEqual {f : PrimaryEqualProof → α} (hok : S.Presentable H)
    (hf : ∀ proof, S.presentEqual H draws env c = .ok proof → f proof = x) :
    f <$> S.presentEqual H draws env c = .ok x := by
  obtain ⟨proof, h⟩ := presentEqual_ok_iff.mpr hok
  rw [h, ← hf proof h]
  rfl

theorem eDist_eq (hok : S.Presentable H) :
    S.eDist H draws env c = drawn fun x : BnRand largeETilde =>
      .ok (c * (H.signature.pCredential.e - largeEStartValue) + x.value) := by
  rw [eDist]
  congr 1
  funext x
  exact map_presentEqual hok fun proof h => (presentEqual_eq_ok h).1

theorem vDist_eq (hok : S.Presentable H) :
    S.vDist H draws env c = drawn fun x : BnRand largeVTilde =>
      .ok (c * (H.signature.pCredential.v -
        H.signature.pCredential.e * draws.subProof.eqProof.r.value) + x.value) := by
  rw [vDist]
  congr 1
  funext x
  exact map_presentEqual hok fun proof h => (presentEqual_eq_ok h).2.1

theorem mDist_eq (hok : S.Presentable H) (ha : a ∈ S.unrevealed)
    (hvalue : H.values.attrsValues.lookup a = some value) :
    S.mDist H draws env c a = drawn fun x : BnRand largeMVect =>
      .ok (some (c * value.value + x.value)) := by
  rw [mDist]
  congr 1
  funext x
  refine map_presentEqual hok fun proof h => ?_
  obtain ⟨value', hvalue', hm⟩ := (presentEqual_eq_ok h).2.2.2 a ha
  obtain rfl := Option.some.inj <| hvalue.symm.trans hvalue'
  rw [hm, attrDraw]
  split <;> simp [PresentationDraws.withMTilde]

theorem m2Dist_eq_of_part (hok : S.Presentable H) (hpart : S.hasNonRevocationPart H) :
    S.m2Dist H draws env c = drawn fun x : GroupOrderElement C =>
      .ok (c * H.signature.pCredential.m2 + (x.val : ℤ)) := by
  rw [m2Dist, if_pos hpart]
  congr 1
  funext x
  refine map_presentEqual hok fun proof h => ?_
  rw [(presentEqual_eq_ok h).2.2.1, m2Blinding, if_pos hpart]
  rfl

theorem m2Dist_eq_of_no_part (hok : S.Presentable H) (hpart : ¬S.hasNonRevocationPart H) :
    S.m2Dist H draws env c = drawn fun x : BnRand largeMVect =>
      .ok (c * H.signature.pCredential.m2 + x.value) := by
  rw [m2Dist, if_neg hpart]
  congr 1
  funext x
  refine map_presentEqual hok fun proof h => ?_
  rw [(presentEqual_eq_ok h).2.2.1, m2Blinding, if_neg hpart]
  rfl

end Presentation

-- The ranges in which the issuer chooses a credential.
structure Holding.InRange (H : Holding C) : Prop where
  start_le_e : largeEStartValue ≤ H.signature.pCredential.e
  e_le_end : H.signature.pCredential.e ≤ largeEEndRangeValue
  v_nonneg : 0 ≤ H.signature.pCredential.v
  v_lt : H.signature.pCredential.v < 2 ^ 2725
  m_lt : ∀ a value, H.values.attrsValues.lookup a = some value → value.value.natAbs < 2 ^ 256
  m2_nonneg : 0 ≤ H.signature.pCredential.m2
  m2_lt : H.signature.pCredential.m2 < 2 ^ 256

namespace Holding.InRange

variable {H : Holding C}

theorem e_bounds (h : H.InRange) :
    0 ≤ H.signature.pCredential.e - largeEStartValue ∧
      H.signature.pCredential.e - largeEStartValue ≤ 0 + (2 ^ 119 : ℕ) := by
  refine ⟨sub_nonneg.mpr h.start_le_e, ?_⟩
  rw [zero_add]
  exact sub_le_iff_le_add.mpr h.e_le_end

-- `v - e * r`, where the product with the randomiser may be as large as `v` itself.
theorem v_bounds (h : H.InRange) (r : BnRand largeVPrime) :
    -2 ^ 2725 ≤ H.signature.pCredential.v - H.signature.pCredential.e * r.value ∧
      H.signature.pCredential.v - H.signature.pCredential.e * r.value ≤
        -2 ^ 2725 + (2 ^ 2726 : ℕ) := by
  have hstart : (0 : ℤ) ≤ H.signature.pCredential.e :=
    le_trans (Int.natCast_nonneg _) h.start_le_e
  have hend : (H.signature.pCredential.e : ℤ) ≤ 2 ^ 597 := by
    have hpow : ((2 ^ largeEEndRange : ℕ) : ℤ) ≤ (2 ^ largeEStart : ℕ) :=
      Int.ofNat_le.mpr <| Nat.pow_le_pow_right (by decide) (by decide)
    calc (H.signature.pCredential.e : ℤ)
      _ ≤ (2 ^ largeEEndRange : ℕ) + (2 ^ largeEStart : ℕ) := h.e_le_end
      _ ≤ (2 ^ largeEStart : ℕ) + (2 ^ largeEStart : ℕ)    := add_le_add_left hpow _
      _ = 2 ^ 597                                          := by
        rw [Nat.cast_pow, Nat.cast_ofNat, ← two_mul, ← pow_succ', largeEStart]
  have hr : (r.value : ℤ) ≤ 2 ^ 2128 := r.value_le
  have hprod : (H.signature.pCredential.e : ℤ) * r.value ≤ 2 ^ 2725 :=
    calc (H.signature.pCredential.e : ℤ) * r.value
      _ ≤ 2 ^ 597 * 2 ^ 2128 := mul_le_mul hend hr r.value_nonneg (by positivity)
      _ = 2 ^ 2725           := by rw [← pow_add]
  have hprod₀ : (0 : ℤ) ≤ H.signature.pCredential.e * r.value := mul_nonneg hstart r.value_nonneg
  have hv := h.v_nonneg
  have hv' := h.v_lt
  have htwo : ((2 ^ 2726 : ℕ) : ℤ) = 2 ^ 2725 + 2 ^ 2725 := by
    rw [Nat.cast_pow, Nat.cast_ofNat, ← two_mul, ← pow_succ']
  rw [htwo]
  generalize (2 : ℤ) ^ 2725 = b at hprod hv' ⊢
  constructor <;> linarith

end Holding.InRange

namespace Presentation

variable {S : Presentation C} {H H' : Holding C} {draws draws' : PresentationDraws C} {c : ℤ}

theorem groupMask_le_iff {reveal : ℤ → α} (hr : Function.Injective reveal) {x y : ℤ} :
    statDist (drawn fun draw : GroupOrderElement C => reveal (c * x + (draw.val : ℤ)))
        (drawn fun draw : GroupOrderElement C => reveal (c * y + (draw.val : ℤ))) ≤ 1 / 2 ^ 78 ↔
      2 ^ 78 * (c * x - c * y).natAbs ≤ C.q := by
  have huniform : Uniform fun draw : GroupOrderElement C => (draw.val : ℤ) := by
    ext x
    simp only [Finset.mem_image, Finset.mem_univ, true_and, Finset.mem_Ico, ZMod.card]
    constructor
    case mp =>
      rintro ⟨draw, rfl⟩
      exact ⟨Int.natCast_nonneg _, Int.ofNat_lt.mpr draw.val_lt⟩
    case mpr =>
      rintro ⟨hx, hlt⟩
      refine ⟨(x.toNat : ZMod C.q), ?_⟩
      rw [ZMod.val_cast_of_lt (by omega)]
      exact Int.toNat_of_nonneg hx
  rw [statDist_mask_le_iff huniform hr _ _ (by decide), ZMod.card]

-- No response tells two credentials apart with a probability of more than `2 ^ -78`.
structure Hides (S : Presentation C) (H H' : Holding C) (draws draws' : PresentationDraws C)
    (env : Env) (c : ℤ) : Prop where
  e : statDist (S.eDist H draws env c) (S.eDist H' draws' env c) ≤ 1 / 2 ^ 78
  v : statDist (S.vDist H draws env c) (S.vDist H' draws' env c) ≤ 1 / 2 ^ 78
  m : ∀ a ∈ S.unrevealed,
    statDist (S.mDist H draws env c a) (S.mDist H' draws' env c a) ≤ 1 / 2 ^ 78
  m2 : statDist (S.m2Dist H draws env c) (S.m2Dist H' draws' env c) ≤ 1 / 2 ^ 78

theorem eDist_le (hc : c.natAbs ≤ 2 ^ 256) (hH : H.InRange) (hH' : H'.InRange)
    (hok : S.Presentable H) (hok' : S.Presentable H') :
    statDist (S.eDist H draws env c) (S.eDist H' draws' env c) ≤ 1 / 2 ^ 78 := by
  rw [eDist_eq hok, eDist_eq hok', BnRand.mask_le_iff ok_injective]
  exact two_pow_mul_natAbs_le hc (natAbs_sub_le hH.e_bounds hH'.e_bounds) (by decide)

theorem vDist_le (hc : c.natAbs ≤ 2 ^ 256) (hH : H.InRange) (hH' : H'.InRange)
    (hok : S.Presentable H) (hok' : S.Presentable H') :
    statDist (S.vDist H draws env c) (S.vDist H' draws' env c) ≤ 1 / 2 ^ 78 := by
  rw [vDist_eq hok, vDist_eq hok', BnRand.mask_le_iff ok_injective]
  exact two_pow_mul_natAbs_le hc (natAbs_sub_le (hH.v_bounds _) (hH'.v_bounds _)) (by decide)

theorem mDist_le (hc : c.natAbs ≤ 2 ^ 256) (hH : H.InRange) (hH' : H'.InRange)
    (hok : S.Presentable H) (hok' : S.Presentable H') (ha : a ∈ S.unrevealed) :
    statDist (S.mDist H draws env c a) (S.mDist H' draws' env c a) ≤ 1 / 2 ^ 78 := by
  obtain ⟨value, hvalue⟩ := Finmap.mem_iff.mp <| hok.values a <| Finset.mem_union_left _ ha
  obtain ⟨value', hvalue'⟩ := Finmap.mem_iff.mp <| hok'.values a <| Finset.mem_union_left _ ha
  have hsub : ((value.value : ℤ) - value'.value).natAbs ≤ 2 ^ 257 := by
    have hm := hH.m_lt a value hvalue
    have hm' := hH'.m_lt a value' hvalue'
    omega
  rw [mDist_eq hok ha hvalue, mDist_eq hok' ha hvalue']
  exact (BnRand.mask_le_iff <| ok_injective.comp <| Option.some_injective _).mpr <|
    two_pow_mul_natAbs_le hc hsub (by decide)

theorem m2Dist_le (hc : c.natAbs ≤ 2 ^ 256) (hH : H.InRange) (hH' : H'.InRange)
    (hok : S.Presentable H) (hok' : S.Presentable H') (hpart : ¬S.hasNonRevocationPart H)
    (hpart' : ¬S.hasNonRevocationPart H') :
    statDist (S.m2Dist H draws env c) (S.m2Dist H' draws' env c) ≤ 1 / 2 ^ 78 := by
  rw [m2Dist_eq_of_no_part hok hpart, m2Dist_eq_of_no_part hok' hpart',
    BnRand.mask_le_iff ok_injective]
  refine two_pow_mul_natAbs_le hc (natAbs_sub_le (a := 0) (b := 2 ^ 256) ?_ ?_) (by decide)
  · exact ⟨hH.m2_nonneg, by have := hH.m2_lt; push_cast; linarith⟩
  · exact ⟨hH'.m2_nonneg, by have := hH'.m2_lt; push_cast; linarith⟩

-- With a non-revocation part the context is blinded by an element of the group's order only.
theorem m2Dist_le_iff (hok : S.Presentable H) (hok' : S.Presentable H')
    (hpart : S.hasNonRevocationPart H) (hpart' : S.hasNonRevocationPart H') :
    statDist (S.m2Dist H draws env c) (S.m2Dist H' draws' env c) ≤ 1 / 2 ^ 78 ↔
      2 ^ 78 * (c * H.signature.pCredential.m2 - c * H'.signature.pCredential.m2).natAbs ≤ C.q := by
  rw [m2Dist_eq_of_part hok hpart, m2Dist_eq_of_part hok' hpart', groupMask_le_iff ok_injective]

theorem presentation_hides_iff (hc₀ : 0 ≤ c) (hc : c < 2 ^ 256) (hH : H.InRange)
    (hH' : H'.InRange) (hpart : S.hasNonRevocationPart H = S.hasNonRevocationPart H')
    (hok : ∃ proof, S.presentEqual H draws env c = .ok proof)
    (hok' : ∃ proof, S.presentEqual H' draws' env c = .ok proof) :
    Hides S H H' draws draws' env c ↔
      S.hasNonRevocationPart H = false ∨
        2 ^ 78 * (c * H.signature.pCredential.m2 - c * H'.signature.pCredential.m2).natAbs ≤
          C.q := by
  have hok := presentEqual_ok_iff.mp hok
  have hok' := presentEqual_ok_iff.mp hok'
  have hcabs : c.natAbs ≤ 2 ^ 256 := by omega
  have hothers (hm2 : statDist (S.m2Dist H draws env c) (S.m2Dist H' draws' env c) ≤ 1 / 2 ^ 78) :
      Hides S H H' draws draws' env c :=
    ⟨eDist_le hcabs hH hH' hok hok', vDist_le hcabs hH hH' hok hok',
      fun _ => mDist_le hcabs hH hH' hok hok', hm2⟩
  cases hcase : S.hasNonRevocationPart H
  case false =>
    have hcase' := hpart ▸ hcase
    simpa using hothers <|
      m2Dist_le hcabs hH hH' hok hok' (Bool.eq_false_iff.mp hcase) (Bool.eq_false_iff.mp hcase')
  case true =>
    rw [← m2Dist_le_iff hok hok' hcase (hpart ▸ hcase)]
    exact ⟨fun h => .inr h.m2, fun h => hothers <| h.resolve_left (by decide)⟩

-- A challenge above the order of the group does not mask the context at all.
theorem m2_ediv_eq (hpart : S.hasNonRevocationPart H) (hc : (C.q : ℤ) ≤ c)
    (h : S.presentEqual H draws env c = .ok proof) :
    (proof.m2 : ℤ) / c = H.signature.pCredential.m2 := by
  have hlt : (draws.subProof.tauListParams.m2.val : ℤ) < c :=
    lt_of_lt_of_le (Int.ofNat_lt.mpr <| ZMod.val_lt _) hc
  have hpos : 0 < c := lt_of_le_of_lt (Int.natCast_nonneg _) hlt
  rw [(presentEqual_eq_ok h).2.2.1, m2Blinding, if_pos hpart, add_comm,
    Int.add_mul_ediv_left _ _ hpos.ne', Int.ediv_eq_zero_of_lt (Int.natCast_nonneg _) hlt, zero_add]

section LargeOrder

def largeCurve : Curve := .residues Curve.largeOrder Curve.largeOrder_prime

def largeRevPubKey : CredentialRevocationPublicKey largeCurve where
  g := (1 : ZMod Curve.largeOrder)
  gDash := (1 : ZMod Curve.largeOrder)
  h := (1 : ZMod Curve.largeOrder)
  h0 := (1 : ZMod Curve.largeOrder)
  h1 := (1 : ZMod Curve.largeOrder)
  h2 := (1 : ZMod Curve.largeOrder)
  htilde := (1 : ZMod Curve.largeOrder)
  hCap := (1 : ZMod Curve.largeOrder)
  u := (1 : ZMod Curve.largeOrder)
  pk := (1 : ZMod Curve.largeOrder)
  y := (1 : ZMod Curve.largeOrder)

-- Presents a credential that can be revoked, without revealing its only attribute.
def agePresentation : Presentation largeCurve where
  commonAttributes := []
  pubKey :=
    { pKey := { n := 77, s := 15, r := (∅ : HashMap BigNumber).insert "age" 16, rctxt := 9, z := 37 }
      rKey := some largeRevPubKey }
  revReg := some ⟨(1 : ZMod Curve.largeOrder)⟩
  credentialSchema := ⟨{"age"}⟩
  nonCredentialSchema := ⟨∅⟩
  subProofRequest := ⟨∅, ∅⟩

def ageValues : CredentialValues where
  attrsValues := (∅ : BTreeMap CredentialValue).insert "age" (.known 20)

-- A credential with the context `m2`.
def ageHolding (m2 : ℤ) : Holding largeCurve where
  signature :=
    { pCredential := { m2, a := 36, e := largeEStartValue, v := 0 }
      rCredential := some
        { sigma := (1 : ZMod Curve.largeOrder), c := 1, vrPrimePrime := 1
          witnessSignature := ⟨(1 : ZMod Curve.largeOrder), (1 : ZMod Curve.largeOrder),
            (1 : ZMod Curve.largeOrder)⟩
          gI := (1 : ZMod Curve.largeOrder), i := 1, m2 := (m2 : ZMod Curve.largeOrder) } }
  values := ageValues
  witness := some ⟨(1 : ZMod Curve.largeOrder)⟩

theorem ageHolding_inRange (h₀ : 0 ≤ m2) (h : m2 < 2 ^ 256) : (ageHolding m2).InRange where
  start_le_e := le_rfl
  e_le_end := Int.le_add_of_nonneg_left (Int.natCast_nonneg _)
  v_nonneg := le_rfl
  v_lt := by positivity
  m_lt a value hvalue := by
    have hage : a = "age" ∧ value = .known 20 := by
      by_cases ha : a = "age"
      case pos =>
        subst ha
        simpa [ageHolding, ageValues, eq_comm] using hvalue
      case neg => simp [ageHolding, ageValues, Finmap.lookup_insert_of_ne, ha] at hvalue
    rw [hage.2]
    decide
  m2_nonneg := h₀
  m2_lt := h

theorem agePresentation_presentable (m2 : ℤ) : agePresentation.Presentable (ageHolding m2) where
  n := by decide
  bases := by decide +kernel
  values :=
    show ∀ a ∈ agePresentation.unrevealed ∪ agePresentation.subProofRequest.revealedAttrs,
      a ∈ ageValues.attrsValues by decide +kernel

def zeroDraws : PresentationDraws largeCurve where
  common _ := .zero
  subProof :=
    { eqProof :=
        { m2Tilde := .zero, r := .zero, eTilde := .zero, vTilde := .zero, mTilde _ := .zero }
      neProof _ :=
        { r _ := .zero
          rDelta := .zero
          uTilde _ := .zero
          rTilde _ := .zero
          rTildeDelta := .zero
          alphaTilde := .zero }
      cListParams :=
        { rho := 0
          r := 0
          rPrime := 0
          rPrimePrime := 0
          rPrimePrimePrime := 0
          o := 0
          oPrime := 0 }
      tauListParams := .fromList [] }

def zeroEnv : Env :=
  .sorted (fun _ => List.replicate 32 0) fun _ => List.length_replicate

theorem presentation_hides_iff_same :
    Hides agePresentation (ageHolding 5) (ageHolding 5) zeroDraws zeroDraws zeroEnv (2 ^ 255) := by
  have hH : (ageHolding 5).InRange := ageHolding_inRange (by decide) (by decide)
  have hok := agePresentation_presentable 5
  exact (presentation_hides_iff (by decide) (by decide) hH hH rfl (presentEqual_ok_iff.mpr hok)
    (presentEqual_ok_iff.mpr hok)).mpr <| .inr (by simp)

-- The context of a credential that can be revoked is the quotient of the response by the challenge.
theorem not_presentation_hides :
    (ageHolding 0).InRange ∧ (ageHolding (2 ^ 255)).InRange ∧
      (∃ proof, agePresentation.presentEqual (ageHolding 0) zeroDraws zeroEnv (2 ^ 255) =
        .ok proof) ∧
      (∃ proof, agePresentation.presentEqual (ageHolding (2 ^ 255)) zeroDraws zeroEnv (2 ^ 255) =
        .ok proof) ∧
      ¬Hides agePresentation (ageHolding 0) (ageHolding (2 ^ 255)) zeroDraws zeroDraws zeroEnv
        (2 ^ 255) ∧
      ∀ draws proof, agePresentation.presentEqual (ageHolding (2 ^ 255)) draws zeroEnv (2 ^ 255) =
        .ok proof → (proof.m2 : ℤ) / 2 ^ 255 = 2 ^ 255 := by
  have hok := agePresentation_presentable 0
  have hok' := agePresentation_presentable (2 ^ 255)
  refine ⟨ageHolding_inRange (by decide) (by decide), ageHolding_inRange (by decide) (by decide),
    presentEqual_ok_iff.mpr hok, presentEqual_ok_iff.mpr hok', fun h => ?_, fun draws proof h => ?_⟩
  · have hle := (m2Dist_le_iff hok hok' rfl rfl).mp h.m2
    revert hle
    decide
  · exact m2_ediv_eq rfl (by decide) h

end LargeOrder

end Presentation
end Ursa
