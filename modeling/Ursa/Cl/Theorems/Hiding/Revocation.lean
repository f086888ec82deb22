import Ursa.Cl.Theorems.Processing
import Ursa.Math.Hiding

namespace Ursa

open UrsaCryptoResult StatDist
open ProofBuilder (Consistent)

variable {C : Curve} {rPubKey : CredentialRevocationPublicKey C} {revReg : RevocationRegistry C}
variable {revKeyPub : RevocationKeyPublic C} {rCred rCred' : NonRevocationCredentialSignature C}
variable {witness witness' : Witness C}

abbrev Exponents (C : Curve) (n : ℕ) := Fin n → GroupOrderElement C

-- `_gen_c_list_params` and `_gen_tau_list_params` draw each exponent for itself.
def CListDraws.ofDraws (draws : Exponents C 7) : CListDraws C where
  rho := draws 0
  r := draws 1
  rPrime := draws 2
  rPrimePrime := draws 3
  rPrimePrimePrime := draws 4
  o := draws 5
  oPrime := draws 6

namespace NonRevocProofXList

def ofDraws (draws : Exponents C 14) : NonRevocProofXList C :=
  .fromList <| List.ofFn draws

def exponents (self : NonRevocProofXList C) : Exponents C 14 :=
  fun i => self.asList.getD i 0

@[simp]
theorem ofDraws_exponents (self : NonRevocProofXList C) : ofDraws self.exponents = self := rfl

-- The answers of `_finalize_non_revocation_proof`.
def answers (c : GroupOrderElement C) (tilde params : NonRevocProofXList C) :
    NonRevocProofXList C :=
  .fromList <| List.zipWith (fun x y => x + -(c * y)) tilde.asList params.asList

theorem answers_eq (c : GroupOrderElement C) (draws : Exponents C 14)
    (params : NonRevocProofXList C) :
    answers c (ofDraws draws) params = ofDraws fun i => draws i - c * params.exponents i := by
  simp only [sub_eq_add_neg]
  rfl

theorem answers_shift (c : GroupOrderElement C) (draws : Exponents C 14)
    (params params' : NonRevocProofXList C) :
    answers c (ofDraws (draws + c • (params'.exponents - params.exponents))) params' =
      answers c (ofDraws draws) params := by
  rw [answers_eq, answers_eq]
  apply congrArg ofDraws
  ext i
  simp only [Pi.add_apply, Pi.smul_apply, Pi.sub_apply, smul_eq_mul]
  ring

end NonRevocProofXList

namespace NonRevocProofTauList

abbrev Components (C : Curve) :=
  PointG1 C × PointG1 C × Pair C × Pair C × PointG1 C × PointG1 C × Pair C × Pair C

def components (self : NonRevocProofTauList C) : Components C :=
  (self.t1, self.t2, self.t3, self.t4, self.t5, self.t6, self.t7, self.t8)

def ofComponents (components : Components C) : NonRevocProofTauList C where
  t1 := components.1
  t2 := components.2.1
  t3 := components.2.2.1
  t4 := components.2.2.2.1
  t5 := components.2.2.2.2.1
  t6 := components.2.2.2.2.2.1
  t7 := components.2.2.2.2.2.2.1
  t8 := components.2.2.2.2.2.2.2

@[simp]
theorem ofComponents_components (self : NonRevocProofTauList C) :
    ofComponents self.components = self := rfl

end NonRevocProofTauList

section Values

variable (rPubKey : CredentialRevocationPublicKey C) (revReg : RevocationRegistry C)
variable (cList : NonRevocProofCList C)

def tauListComponents (draws : Exponents C 14) : NonRevocProofTauList.Components C :=
  (createTauListValues rPubKey revReg (.ofDraws draws) cList).components

theorem tauListComponents_add (draws draws' : Exponents C 14) :
    tauListComponents rPubKey revReg cList (draws + draws') =
      tauListComponents rPubKey revReg cList draws +
        tauListComponents rPubKey revReg cList draws' := by
  simp only [tauListComponents, NonRevocProofTauList.components, createTauListValues,
    NonRevocProofXList.ofDraws, NonRevocProofXList.fromList, Prod.mk_add_mk, Prod.mk.injEq]
  refine ⟨?_, ?_, ?_, ?_, ?_, ?_, ?_, ?_⟩ <;> simp <;> module

theorem tauListComponents_smul (c : GroupOrderElement C) (draws : Exponents C 14) :
    tauListComponents rPubKey revReg cList (c • draws) =
      c • tauListComponents rPubKey revReg cList draws := by
  simp only [tauListComponents, NonRevocProofTauList.components, createTauListValues,
    NonRevocProofXList.ofDraws, NonRevocProofXList.fromList, Prod.smul_mk, Prod.mk.injEq]
  refine ⟨?_, ?_, ?_, ?_, ?_, ?_, ?_, ?_⟩ <;> simp <;> module

def tauListMap :
    Exponents C 14 →ₗ[GroupOrderElement C] NonRevocProofTauList.Components C where
  toFun := tauListComponents rPubKey revReg cList
  map_add' := tauListComponents_add rPubKey revReg cList
  map_smul' := tauListComponents_smul rPubKey revReg cList

end Values

def paramsOf (rCred : NonRevocationCredentialSignature C) (draws : Exponents C 7) :
    NonRevocProofXList C :=
  ProofBuilder.genCListParams rCred (.ofDraws draws)

def cListOf (rPubKey : CredentialRevocationPublicKey C)
    (rCred : NonRevocationCredentialSignature C) (witness : Witness C) (draws : Exponents C 7) :
    NonRevocProofCList C :=
  ProofBuilder.createCListValues rCred (paramsOf rCred draws) rPubKey witness

-- The points hide every signature alike: the other one is in them for draws that are moved by what
-- the two differ in.
theorem exists_same_cList (hC : C.PrimeOrder) (hhtilde : rPubKey.htilde ≠ 0)
    (hhCap : rPubKey.hCap ≠ 0) (rCred rCred' : NonRevocationCredentialSignature C)
    (witness witness' : Witness C) :
    ∃ d, ∀ draws,
      cListOf rPubKey rCred witness draws = cListOf rPubKey rCred' witness' (draws + d) := by
  obtain ⟨h, hh⟩ := hC.exists_smul₁ _ rPubKey.h hhtilde
  obtain ⟨g, hg⟩ := hC.exists_smul₁ _ rPubKey.g hhtilde
  obtain ⟨rho, hrho⟩ := hC.exists_smul₁ _ (rCred.sigma - rCred'.sigma) hhtilde
  obtain ⟨r, hr⟩ := hC.exists_smul₁ _ (rCred.gI - rCred'.gI) hhtilde
  obtain ⟨rPrime, hrPrime⟩ := hC.exists_smul₂ _ (witness.omega - witness'.omega) hhCap
  obtain ⟨rPrimePrime, hrPrimePrime⟩ := hC.exists_smul₂ _
    (rCred.witnessSignature.sigmaI - rCred'.witnessSignature.sigmaI) hhCap
  obtain ⟨rPrimePrimePrime, hrPrimePrimePrime⟩ := hC.exists_smul₂ _
    (rCred.witnessSignature.uI - rCred'.witnessSignature.uI) hhCap
  exists ![rho, r, rPrime, rPrimePrime, rPrimePrimePrime, -(rho * h), -(r * g)]
  intro draws
  simp only [cListOf, paramsOf, ProofBuilder.createCListValues, ProofBuilder.genCListParams,
    CListDraws.ofDraws, Pi.add_apply, add_smul, ← hh, ← hg, NonRevocProofCList.mk.injEq]
  refine ⟨?_, ?_, ?_, ?_, ?_, ?_, ?_⟩
  all_goals simp
  case refine_1 => module
  case refine_2 => module
  case refine_3 => rw [hrho]; abel
  case refine_4 => rw [hr]; abel
  case refine_5 => rw [hrPrime]; abel
  case refine_6 => rw [hrPrimePrime]; abel
  case refine_7 => rw [hrPrimePrimePrime]; abel

-- What is shown of the draws of the values: the eight components, and the draw for `m2`, which the
-- primary proof takes for its own blinding of `m2`.
def shownMap (rPubKey : CredentialRevocationPublicKey C) (revReg : RevocationRegistry C)
    (cList : NonRevocProofCList C) :
    Exponents C 14 →ₗ[GroupOrderElement C]
      NonRevocProofTauList.Components C × GroupOrderElement C :=
  (tauListMap rPubKey revReg cList).prod <| LinearMap.proj 8

section Present

variable (env : Env)
variable (values : BigNumber → List (List UInt8) → List (List UInt8) → List (List UInt8))

abbrev Draws (C : Curve) := Exponents C 7 × Exponents C 14

-- The challenge is a hash of the values in the two lists of the builder, with those of the primary
-- proof (which is made with `m2_tilde`) and of the other sub proofs and the nonce put around them.
def nonRevocationChallenge (m2Tilde : BigNumber) (cList : NonRevocProofCList C)
    (tauList : NonRevocProofTauList C) : BigNumber :=
  getHashAsInt env <| values m2Tilde tauList.asSlice cList.asList

-- What leaves `_init_non_revocation_proof` and `_finalize_non_revocation_proof`. The primary proof
-- of the same credential answers the challenge with `m2_tilde`.
structure NonRevocationView (C : Curve) where
  m2Tilde : BigNumber
  cHash : BigNumber
  proof : NonRevocProof C

def presentNonRevocation (rPubKey : CredentialRevocationPublicKey C)
    (revReg : RevocationRegistry C) (rCred : NonRevocationCredentialSignature C)
    (witness : Witness C) (draws : Draws C) : UrsaCryptoResult (NonRevocationView C) := do
  let initProof := ProofBuilder.initNonRevocationProof rCred revReg rPubKey witness
    (.ofDraws draws.1) (.ofDraws draws.2)
  let m2Tilde := groupElementToBignum initProof.tauListParams.m2
  let cHash := nonRevocationChallenge env values m2Tilde initProof.cList initProof.tauList
  let proof ← ProofBuilder.finalizeNonRevocationProof initProof cHash
  pure { m2Tilde, cHash, proof }

def shownChallenge (cList : NonRevocProofCList C)
    (shown : NonRevocProofTauList.Components C × GroupOrderElement C) : BigNumber :=
  nonRevocationChallenge env values (groupElementToBignum shown.2) cList (.ofComponents shown.1)

def nonRevocationExponent (cList : NonRevocProofCList C)
    (shown : NonRevocProofTauList.Components C × GroupOrderElement C) : GroupOrderElement C :=
  (shownChallenge env values cList shown : ZMod C.q)

-- The view, from what is shown of the draws.
def viewOf (cList : NonRevocProofCList C)
    (shown : NonRevocProofTauList.Components C × GroupOrderElement C)
    (xList : NonRevocProofXList C) : NonRevocationView C where
  m2Tilde := groupElementToBignum shown.2
  cHash := shownChallenge env values cList shown
  proof := { xList, cList }

theorem presentNonRevocation_eq_ok (draws : Draws C) :
    let cList := cListOf rPubKey rCred witness draws.1
    let shown := shownMap rPubKey revReg cList draws.2
    presentNonRevocation env values rPubKey revReg rCred witness draws =
      .ok (viewOf env values cList shown <| .answers (nonRevocationExponent env values cList shown)
        (.ofDraws draws.2) (paramsOf rCred draws.1)) := by
  intro cList shown
  simp only [presentNonRevocation, ProofBuilder.finalizeNonRevocationProof, nonRevocationChallenge]
  rw [bignumToGroupElement_eq_ok (getHashAsInt_nonneg ..) (getHashAsInt_lt ..)]
  rfl

-- The exponents of both holders open the values that the verifier expects of the points.
theorem tauListMap_difference (h : Consistent rCred rPubKey revKeyPub revReg witness)
    (h' : Consistent rCred' rPubKey revKeyPub revReg witness') {points points' : Exponents C 7}
    (hd : cListOf rPubKey rCred witness points = cListOf rPubKey rCred' witness' points') :
    tauListMap rPubKey revReg (cListOf rPubKey rCred witness points)
      ((paramsOf rCred' points').exponents - (paramsOf rCred points).exponents) = 0 := by
  have hopens := ProofBuilder.createTauListExpectedValues_honest h (.ofDraws points)
  have hopens' := ProofBuilder.createTauListExpectedValues_honest h' (.ofDraws points')
  change createTauListExpectedValues _ _ _ (cListOf rPubKey rCred' witness' points') =
    createTauListValues _ _ _ (cListOf rPubKey rCred' witness' points') at hopens'
  rw [← hd] at hopens'
  rw [map_sub, sub_eq_zero]
  exact congrArg NonRevocProofTauList.components <| hopens'.symm.trans hopens

-- With one context the draw for `m2` is not moved either.
theorem shownMap_difference (hm : rCred.m2 = rCred'.m2)
    (h : Consistent rCred rPubKey revKeyPub revReg witness)
    (h' : Consistent rCred' rPubKey revKeyPub revReg witness') {points points' : Exponents C 7}
    (hd : cListOf rPubKey rCred witness points = cListOf rPubKey rCred' witness' points') :
    shownMap rPubKey revReg (cListOf rPubKey rCred witness points)
      ((paramsOf rCred' points').exponents - (paramsOf rCred points).exponents) = 0 := by
  have htau := tauListMap_difference h h' hd
  have hm2 : (paramsOf rCred' points').exponents 8 - (paramsOf rCred points).exponents 8 = 0 :=
    sub_eq_zero_of_eq hm.symm
  exact Prod.ext htau hm2

theorem presentNonRevocation_shift {points points' : Exponents C 7} (tilde : Exponents C 14)
    (hd : cListOf rPubKey rCred witness points = cListOf rPubKey rCred' witness' points')
    (hδ : shownMap rPubKey revReg (cListOf rPubKey rCred witness points)
      ((paramsOf rCred' points').exponents - (paramsOf rCred points).exponents) = 0) :
    presentNonRevocation env values rPubKey revReg rCred witness (points, tilde) =
      presentNonRevocation env values rPubKey revReg rCred' witness' (points',
        Sigma.shift _ (nonRevocationExponent env values <| cListOf rPubKey rCred witness points) _
          hδ tilde) := by
  let cList := cListOf rPubKey rCred witness points
  let δ := (paramsOf rCred' points').exponents - (paramsOf rCred points).exponents
  let shown := shownMap rPubKey revReg cList tilde
  let c := nonRevocationExponent env values cList shown
  have hshown : shownMap rPubKey revReg cList (tilde + c • δ) = shown := Sigma.map_shift hδ c tilde
  have hanswers := NonRevocProofXList.answers_shift c tilde (paramsOf rCred points)
    (paramsOf rCred' points')
  rw [presentNonRevocation_eq_ok, presentNonRevocation_eq_ok, ← hd]
  change Except.ok (viewOf env values cList shown <| .answers c (.ofDraws tilde) _) =
    Except.ok (viewOf env values cList (shownMap rPubKey revReg cList (tilde + c • δ)) <|
      .answers (nonRevocationExponent env values cList <|
        shownMap rPubKey revReg cList (tilde + c • δ)) (.ofDraws <| tilde + c • δ) _)
  rw [hshown, ← hanswers]

-- The draws of the other holder: those of the points are moved once and for all, those of the values
-- follow the exponents in the points.
theorem exists_draws_equiv (hC : C.PrimeOrder) (hhtilde : rPubKey.htilde ≠ 0)
    (hhCap : rPubKey.hCap ≠ 0) (hm : rCred.m2 = rCred'.m2)
    (h : Consistent rCred rPubKey revKeyPub revReg witness)
    (h' : Consistent rCred' rPubKey revKeyPub revReg witness') :
    ∃ e : Draws C ≃ Draws C, ∀ draws,
      presentNonRevocation env values rPubKey revReg rCred witness draws =
        presentNonRevocation env values rPubKey revReg rCred' witness' (e draws) := by
  obtain ⟨d, hd⟩ := exists_same_cList hC hhtilde hhCap rCred rCred' witness witness'
  have hδ (points : Exponents C 7) := shownMap_difference hm h h' (hd points)
  exists Equiv.prodShear (Equiv.addRight d) fun points => Sigma.shift _
    (nonRevocationExponent env values <| cListOf rPubKey rCred witness points) _ (hδ points)
  intro draws
  exact presentNonRevocation_shift env values draws.2 (hd draws.1) (hδ draws.1)

-- The proof shows nothing of the credential but its context and that it is not revoked, also to one
-- who learns the challenge and the blinding that the primary proof shares: any two credentials of
-- one context that the registry has give views with the same distribution, whoever made the keys.
theorem nonRevocationProof_hides (hC : C.PrimeOrder) (hhtilde : rPubKey.htilde ≠ 0)
    (hhCap : rPubKey.hCap ≠ 0) (hm : rCred.m2 = rCred'.m2)
    (h : Consistent rCred rPubKey revKeyPub revReg witness)
    (h' : Consistent rCred' rPubKey revKeyPub revReg witness') :
    (∀ draws, ∃ view,
      presentNonRevocation env values rPubKey revReg rCred witness draws = .ok view) ∧
    drawn (presentNonRevocation env values rPubKey revReg rCred witness) =
      drawn (presentNonRevocation env values rPubKey revReg rCred' witness') := by
  constructor
  case left => exact fun draws => ⟨_, presentNonRevocation_eq_ok env values draws⟩
  case right =>
    obtain ⟨e, he⟩ := exists_draws_equiv env values hC hhtilde hhCap hm h h'
    exact drawn_eq_of_equiv e he

section Residues

open ProofVerifier (curveMod11 mod11 rPubKeyMod11)

-- The holders of the indices 1 and 2, of one context.
theorem nonRevocationProof_hides_mod11 :
    let env : Env := .sorted Prover.hashLastByte fun _ => rfl
    let values (m2Tilde : BigNumber) (tauList cList : List (List UInt8)) :=
      m2Tilde.toBytes :: (tauList ++ cList)
    let rCred : NonRevocationCredentialSignature curveMod11 :=
      { sigma := mod11 6, c := mod11 1, vrPrimePrime := mod11 1, gI := mod11 2, i := 1, m2 := mod11 5
        witnessSignature := { sigmaI := mod11 6, uI := mod11 3, gI := mod11 2 } }
    let rCred' : NonRevocationCredentialSignature curveMod11 :=
      { sigma := mod11 7, c := mod11 2, vrPrimePrime := mod11 3, gI := mod11 4, i := 2, m2 := mod11 5
        witnessSignature := { sigmaI := mod11 9, uI := mod11 6, gI := mod11 4 } }
    drawn (presentNonRevocation env values rPubKeyMod11 ⟨mod11 10⟩ rCred ⟨mod11 0⟩) =
      drawn (presentNonRevocation env values rPubKeyMod11 ⟨mod11 10⟩ rCred' ⟨mod11 9⟩) := by
  intro env values rCred rCred'
  have hC : curveMod11.PrimeOrder := Curve.residues_primeOrder ..
  have hm : rCred.m2 = rCred'.m2 := rfl
  have h : Consistent rCred rPubKeyMod11 ⟨mod11 9⟩ ⟨mod11 10⟩ ⟨mod11 0⟩ :=
    { accum := by decide, witnessSignature := by decide, signature := by decide, gI_eq := rfl
      u := by decide }
  have h' : Consistent rCred' rPubKeyMod11 ⟨mod11 9⟩ ⟨mod11 10⟩ ⟨mod11 9⟩ :=
    { accum := by decide, witnessSignature := by decide, signature := by decide, gI_eq := rfl
      u := by decide }
  exact (nonRevocationProof_hides env values hC (by decide) (by decide) hm h h').right

end Residues

end Present

end Ursa
