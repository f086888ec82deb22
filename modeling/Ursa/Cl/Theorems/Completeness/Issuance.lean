import Ursa.Cl.Theorems.Completeness.Keys
import Ursa.Cl.Theorems.Hiding.Issuance
import Ursa.Cl.Theorems.Processing

namespace Ursa

open BigNumber UrsaCryptoResult

variable {C : Curve} {env : Env} {pPubKey : CredentialPrimaryPublicKey} {K : UnitKey pPubKey}
variable {values : CredentialValues} {draws : Prover.BlindingDraws}

section Blinding

open Prover

-- Every attribute has a base.
def CredentialValues.Based (values : CredentialValues) (pPubKey : CredentialPrimaryPublicKey) :
    Prop :=
  ∀ a v, values.attrsValues.lookup a = some v → a ∈ pPubKey.r

variable (hn : 1 < pPubKey.n.natAbs) (hbased : values.Based pPubKey)

-- The commitments of the committed attributes, and nothing else.
def Commits (K : UnitKey pPubKey) (entries : List (String × CredentialValue))
    (committed : BTreeMap BigNumber) : Prop :=
  (∀ a, a ∈ committed ↔ ∃ x b, (a, CredentialValue.commitment x b) ∈ entries) ∧
    ∀ a ca, committed.lookup a = some ca → ∃ x b, (a, CredentialValue.commitment x b) ∈ entries ∧
      Computes pPubKey.n (.ok ca) (K.commit x b)

theorem Commits.append {done : List (String × CredentialValue)} (h : Commits K done committed)
    (hentry : ∀ a x b, entry ≠ (a, CredentialValue.commitment x b)) :
    Commits K (done ++ [entry]) committed := by
  obtain ⟨hmem, hvalue⟩ := h
  refine ⟨fun a => ?_, fun a ca hca => ?_⟩
  · simp [hmem, fun x b => (hentry a x b).symm]
  · obtain ⟨x, b, hx, hca⟩ := hvalue a ca hca
    exact ⟨x, b, List.mem_append_left _ hx, hca⟩

include hn

theorem commitAttr_ok (K : UnitKey pPubKey) {entry : String × CredentialValue}
    {done : List (String × CredentialValue)} (h : Commits K done committed) :
    ∃ committed', commitAttr pPubKey committed entry = .ok committed' ∧
      Commits K (done ++ [entry]) committed' := by
  obtain ⟨a, value⟩ := entry
  cases value
  case known x => exact ⟨committed, rfl, h.append fun _ _ _ heq => by cases heq⟩
  case hidden x => exact ⟨committed, rfl, h.append fun _ _ _ heq => by cases heq⟩
  case commitment x b =>
    obtain ⟨hmem, hvalue⟩ := h
    have hcommit := computes_getPedersenCommitment hn K.s_eq K.z_eq b x
    rw [mul_comm, ← ClKey.commit] at hcommit
    obtain ⟨ca, hca, -⟩ := id hcommit
    rw [hca] at hcommit
    refine ⟨committed.insert a ca, by rw [commitAttr, hca, ok_bind]; rfl, fun k => ?_,
      fun k y hy => ?_⟩
    · simp [hmem, or_comm, Finmap.mem_insert, and_comm, exists_or]
    · obtain rfl | hne := eq_or_ne k a
      · rw [Finmap.lookup_insert] at hy
        exact ⟨x, b, by simp, Option.some.inj hy ▸ hcommit⟩
      · obtain ⟨y, b, hy, hca⟩ := hvalue k y <| Finmap.lookup_insert_of_ne _ hne ▸ hy
        exact ⟨y, b, List.mem_append_left _ hy, hca⟩

theorem computes_blindHiddenAttr (K : UnitKey pPubKey) (hbased : values.Based pPubKey)
    (ha : a ∈ values.names (·.isHidden)) {result : UrsaCryptoResult BigNumber}
    {u : (ZMod pPubKey.n.natAbs)ˣ} (h : Computes pPubKey.n result u) :
    Computes pPubKey.n (blindHiddenAttr pPubKey values result a)
      (K.r a ^ values.exponents a * u) := by
  obtain ⟨value, hvalue, -⟩ := CredentialValues.mem_names.mp ha
  obtain ⟨r, hr⟩ := Finmap.mem_iff.mp <| hbased a value hvalue
  rw [blindHiddenAttr, hr, hvalue, okOrElse, okOrElse, ok_bind, ok_bind,
    CredentialValues.exponents_eq hvalue, mul_comm]
  exact h.bind fun y hy => (computes_modExp hn (K.r_eq a r hr) _).bind fun _ hpower =>
    computes_modMul (ne_zero_of_one_lt hn) hy hpower

theorem generateFactors_ok (K : UnitKey pPubKey) (hbased : values.Based pPubKey)
    (draws : BlindingDraws) :
    ∃ secrets, generateBlindedPrimaryCredentialSecretsFactors pPubKey values draws = .ok secrets ∧
      Computes pPubKey.n (.ok secrets.u) (K.s ^ (draws.vPrime.value : ℤ) *
        K.attributes values.exponents (values.names (·.isHidden))) ∧
      secrets.vPrime = draws.vPrime.value ∧
      secrets.hiddenAttributes = values.names (·.isHidden) ∧
      Commits K values.attrsValues.iter secrets.committedAttributes := by
  have hu := computes_foldResult _
    (fun a ha _ _ h => computes_blindHiddenAttr hn K hbased (BTreeSet.mem_iter.mp ha) h)
    (computes_modExp hn K.s_eq draws.vPrime.value)
  rw [prod_iter_set, mul_comm, ← ClKey.attributes] at hu
  obtain ⟨u, hu', -⟩ := id hu
  obtain ⟨committed, hcommitted, hcommits⟩ := foldlM_prefix (l := values.attrsValues.iter)
    (fun _ _ _ _ h => commitAttr_ok hn K h)
    (⟨fun a => by simp [Finmap.notMem_empty], fun a ca hca => by simp at hca⟩ : Commits K [] ∅)
  refine ⟨{ u, vPrime := draws.vPrime.value, hiddenAttributes := values.names (·.isHidden)
            committedAttributes := committed }, ?_, hu' ▸ hu, rfl, rfl, hcommits⟩
  rw [CredentialValues.names] at hu'
  rw [generateBlindedPrimaryCredentialSecretsFactors, hu', ok_bind, hcommitted, ok_bind]
  rfl

-- The state after the entries `done`: `T` are the commitments to the blindings.
structure Committed (K : UnitKey pPubKey) (secrets : PrimaryBlindedCredentialSecretsFactors)
    (draws : BlindingDraws) (T : String → BigNumber) (done : List (String × CredentialValue))
    (st : SecretsCommitments) : Prop where
  uTilde : Computes pPubKey.n (.ok st.uTilde) (((done.filter (·.2.isHidden)).map fun entry =>
    K.r entry.1 ^ ((draws.mTilde entry.1).value : ℤ)).prod *
      K.s ^ (draws.vDashTilde.value : ℤ))
  rTildes : ∀ a x b, (a, CredentialValue.commitment x b) ∈ done →
    st.rTildes.lookup a = some (draws.rTilde a).value
  values : st.values = (done.filter (·.2.isCommitment)).flatMap fun entry =>
    (T entry.1).toBytes ++ toBytes (exponents secrets.committedAttributes entry.1)

theorem commitSecret_ok {secrets : PrimaryBlindedCredentialSecretsFactors}
    {T : String → BigNumber} (K : UnitKey pPubKey) (hbased : values.Based pPubKey)
    (hT : ∀ a, getPedersenCommitment pPubKey.z (draws.mTilde a).value pPubKey.s
      (draws.rTilde a).value pPubKey.n = .ok (T a))
    (hcommits : Commits K values.attrsValues.iter secrets.committedAttributes)
    (hentry : entry ∈ values.attrsValues.iter) (hsecret : entry.2.isHidden || entry.2.isCommitment)
    {done : List (String × CredentialValue)} (h : Committed K secrets draws T done st) :
    ∃ st', commitSecret pPubKey secrets draws st entry = .ok st' ∧
      Committed K secrets draws T (done ++ [entry]) st' := by
  obtain ⟨a, value⟩ := entry
  obtain ⟨r, hr⟩ := Finmap.mem_iff.mp <| hbased a value <| BTreeMap.mem_iter.mp hentry
  cases value
  case known x => cases hsecret
  case hidden x =>
    have hu := h.uTilde.bind fun y hy => (computes_modExp hn (K.r_eq a r hr)
      (draws.mTilde a).value).bind fun _ hpower =>
        computes_modMul (ne_zero_of_one_lt hn) hy hpower
    rw [ok_bind] at hu
    obtain ⟨uTilde, huTilde, -⟩ := id hu
    rw [huTilde] at hu
    obtain ⟨power, hpower, huTilde⟩ := bind_eq_ok_iff.mp huTilde
    refine ⟨{ st with uTilde, mTildes := st.mTildes.insert a (draws.mTilde a).value }, ?_, ?_, ?_,
      ?_⟩
    case refine_1 =>
      simp only [commitSecret, hr, okOrElse, hpower, huTilde, ok_bind]
      rfl
    case refine_2 =>
      simpa [CredentialValue.isHidden, mul_comm, mul_left_comm, mul_assoc] using hu
    case refine_3 =>
      intro k x b hk
      exact h.rTildes k x b <| by simpa using hk
    case refine_4 => simpa [CredentialValue.isCommitment] using h.values
  case commitment x b =>
    obtain ⟨ca, hca⟩ := Finmap.mem_iff.mp <| (hcommits.1 a).mpr ⟨x, b, hentry⟩
    refine ⟨{ st with
              mTildes := st.mTildes.insert a (draws.mTilde a).value
              rTildes := st.rTildes.insert a (draws.rTilde a).value
              values := st.values ++ (T a).toBytes ++ ca.toBytes }, ?_, ?_, ?_, ?_⟩
    case refine_1 =>
      simp only [commitSecret, hr, okOrElse, hT, hca, ok_bind]
      rfl
    case refine_2 => simpa [CredentialValue.isHidden] using h.uTilde
    case refine_3 =>
      intro k x b hk
      obtain rfl | hne := eq_or_ne k a
      · exact Finmap.lookup_insert _
      · rw [Finmap.lookup_insert_of_ne _ hne]
        exact h.rTildes k x b <| by simpa [hne] using hk
    case refine_4 =>
      simp [CredentialValue.isCommitment, h.values, exponents_eq hca]

abbrev isSecret (value : CredentialValue) : Bool :=
  value.isHidden || value.isCommitment

theorem commitSecrets_ok {secrets : PrimaryBlindedCredentialSecretsFactors}
    {T : String → BigNumber} (K : UnitKey pPubKey) (hbased : values.Based pPubKey)
    (hT : ∀ a, getPedersenCommitment pPubKey.z (draws.mTilde a).value pPubKey.s
      (draws.rTilde a).value pPubKey.n = .ok (T a))
    (hcommits : Commits K values.attrsValues.iter secrets.committedAttributes) :
    ∃ st, commitSecrets pPubKey secrets values draws = .ok st ∧
      Computes pPubKey.n (.ok st.uTilde) (K.attributes (fun a => (draws.mTilde a).value)
        (values.names (·.isHidden)) * K.s ^ (draws.vDashTilde.value : ℤ)) ∧
      (∀ a x b, values.attrsValues.lookup a = some (.commitment x b) →
        st.rTildes.lookup a = some (draws.rTilde a).value) ∧
      st.values = (BTreeSet.iter (values.names (·.isCommitment))).flatMap fun a =>
        (T a).toBytes ++ toBytes (exponents secrets.committedAttributes a) := by
  have hdash := computes_modExp hn K.s_eq draws.vDashTilde.value
  obtain ⟨uTilde, huTilde, -⟩ := id hdash
  rw [huTilde] at hdash
  obtain ⟨st, hst, h⟩ := foldlM_prefix (l := values.attrsValues.iter.filter (isSecret ·.2))
    (fun entry hentry _ _ h => commitSecret_ok hn K hbased hT hcommits
      (List.mem_filter.mp hentry).1 (List.mem_filter.mp hentry).2 h)
    (⟨by simpa using hdash, by simp, rfl⟩ :
      Committed K secrets draws T [] { uTilde, mTildes := ∅, rTildes := ∅, values := [] })
  rw [List.nil_append] at h
  have hhidden : (values.attrsValues.iter.filter (isSecret ·.2)).filter (·.2.isHidden) =
      values.attrsValues.iter.filter (·.2.isHidden) := by
    rw [List.filter_filter]
    congr 1
    funext entry
    cases entry.2 <;> rfl
  have hcommitment : (values.attrsValues.iter.filter (isSecret ·.2)).filter (·.2.isCommitment) =
      values.attrsValues.iter.filter (·.2.isCommitment) := by
    rw [List.filter_filter]
    congr 1
    funext entry
    cases entry.2 <;> rfl
  refine ⟨st, ?_, ?_, ?_, ?_⟩
  case refine_1 =>
    rw [commitSecrets, huTilde, ok_bind]
    exact hst
  case refine_2 =>
    have hu := h.uTilde
    have hprod := prod_iter_set (values.names (·.isHidden))
      fun a => K.r a ^ ((draws.mTilde a).value : ℤ)
    rw [← CredentialValues.map_fst_filter_iter, List.map_map] at hprod
    rw [hhidden] at hu
    rwa [ClKey.attributes, ← hprod]
  case refine_3 =>
    intro a x b ha
    exact h.rTildes a x b <| List.mem_filter.mpr ⟨BTreeMap.mem_iter.mpr ha, rfl⟩
  case refine_4 =>
    rw [h.values, hcommitment, ← CredentialValues.map_fst_filter_iter, List.flatMap_map]

omit hn

-- The response for the randomness of a commitment.
theorem lookup_rCaps {rTildes mTildes : BTreeMap BigNumber}
    (ha : values.attrsValues.lookup a = some (.commitment x b)) (hr : rTildes.lookup a = some r)
    (hm : mTildes.lookup a = some m)
    (h : mTildes.iter.foldlM (respondSecret values c rTildes) (∅, ∅) = .ok caps) :
    caps.2.lookup a = some (r + c * b) := by
  refine foldlM_assigns (P := fun entry => entry.1 = a) (·.2.lookup a)
    (fun entry _ caps caps' hb => ?_) (.inl ⟨_, BTreeMap.mem_iter.mpr hm, rfl⟩) h
  obtain ⟨k, mTilde⟩ := entry
  obtain ⟨mCaps, rCaps⟩ := caps
  simp only [respondSecret, bind_eq_ok_iff, okOrElse_eq_ok_iff] at hb
  obtain ⟨value, hv, hb⟩ := hb
  split
  case isTrue hk =>
    subst hk
    obtain rfl := Option.some.inj <| ha.symm.trans hv
    simp only [bind_eq_ok_iff, okOrElse_eq_ok_iff, pure_eq_ok_iff] at hb
    obtain ⟨r', hr', rfl⟩ := hb
    rw [Option.some.inj <| hr.symm.trans hr', Finmap.lookup_insert]
  case isFalse hne =>
    cases value <;> simp only [bind_eq_ok_iff, okOrElse_eq_ok_iff, pure_eq_ok_iff] at hb
    case known => rw [← hb]
    case hidden => rw [← hb]
    case commitment =>
      obtain ⟨_, -, rfl⟩ := hb
      exact Finmap.lookup_insert_of_ne _ (Ne.symm hne)

-- What the prover sends: `c` is the challenge, and the commitments of the first half are the units
-- that the issuer has to find again.
structure Blinded (env : Env) (K : UnitKey pPubKey) (values : CredentialValues) (nonce : Nonce)
    (draws : BlindingDraws) (T : String → BigNumber) (uTilde : BigNumber)
    (secrets : PrimaryBlindedCredentialSecretsFactors)
    (proof : BlindedCredentialSecretsCorrectnessProof) : Prop where
  u : Computes pPubKey.n (.ok secrets.u) (K.s ^ (draws.vPrime.value : ℤ) *
    K.attributes values.exponents (values.names (·.isHidden)))
  vPrime : secrets.vPrime = draws.vPrime.value
  hiddenAttributes : secrets.hiddenAttributes = values.names (·.isHidden)
  commits : Commits K values.attrsValues.iter secrets.committedAttributes
  tilde : Computes pPubKey.n (.ok uTilde) (K.attributes (fun a => (draws.mTilde a).value)
    (values.names (·.isHidden)) * K.s ^ (draws.vDashTilde.value : ℤ))
  c : proof.c = getHashAsInt env [(BTreeSet.iter (values.names (·.isCommitment))).flatMap (fun a =>
    (T a).toBytes ++ toBytes (exponents secrets.committedAttributes a)) ++ secrets.u.toBytes ++
      uTilde.toBytes ++ nonce.toBytes]
  vDashCap : proof.vDashCap = proof.c * draws.vPrime.value + draws.vDashTilde.value
  mCaps : ∀ a v, values.attrsValues.lookup a = some v → isSecret v →
    proof.mCaps.lookup a = some (proof.c * v.value + (draws.mTilde a).value)
  rCaps : ∀ a x b, values.attrsValues.lookup a = some (.commitment x b) →
    proof.rCaps.lookup a = some ((draws.rTilde a).value + proof.c * b)

theorem blind_ok (env : Env) (K : UnitKey pPubKey) (hn : 1 < pPubKey.n.natAbs)
    (hbased : values.Based pPubKey) (nonce : Nonce) (draws : BlindingDraws) :
    ∃ T secrets proof uTilde,
      (∀ a, getPedersenCommitment pPubKey.z (draws.mTilde a).value pPubKey.s
        (draws.rTilde a).value pPubKey.n = .ok (T a)) ∧
      generateBlindedPrimaryCredentialSecretsFactors pPubKey values draws = .ok secrets ∧
      newBlindedCredentialSecretsCorrectnessProof env pPubKey secrets nonce values draws =
        .ok proof ∧
      Blinded env K values nonce draws T uTilde secrets proof := by
  have hT : ∀ a, ∃ y, getPedersenCommitment pPubKey.z (draws.mTilde a).value pPubKey.s
      (draws.rTilde a).value pPubKey.n = .ok y := fun a =>
    (computes_getPedersenCommitment hn K.z_eq K.s_eq _ _).imp fun _ h => h.1
  choose T hT using hT
  obtain ⟨secrets, hsecrets, hu, hvPrime, hhidden, hcommits⟩ :=
    generateFactors_ok hn K hbased draws
  obtain ⟨st, hst, huTilde, hrTildes, hvalues⟩ := commitSecrets_ok hn K hbased hT hcommits
  let B : BlindingRun := ⟨pPubKey, values⟩
  let c := getHashAsInt env [st.values ++ secrets.u.toBytes ++ st.uTilde.toBytes ++ nonce.toBytes]
  have hresponds : ∀ a ∈ st.mTildes, B.Responds st a := BlindingRun.responds_commitSecrets hst
  obtain ⟨caps, hcaps⟩ := foldlM_ok (f := respondSecret values c st.rTildes)
    (l := st.mTildes.iter) (fun entry hentry caps =>
      (hresponds _ <| Finmap.mem_of_lookup_eq_some <|
        BTreeMap.mem_iter.mp hentry).respondSecret_ok caps) (∅, ∅)
  let proof : BlindedCredentialSecretsCorrectnessProof :=
    { c
      vDashCap := c * secrets.vPrime + draws.vDashTilde.value
      mCaps := caps.1
      rCaps := caps.2 }
  have hrespond : respondSecrets secrets values draws st c = .ok proof := by
    rw [respondSecrets, hcaps, ok_bind]
    rfl
  have hprove : B.prove draws c = .ok proof := by
    rw [BlindingRun.prove, hsecrets, ok_bind, hst, ok_bind, hrespond]
  have hmCaps := (BlindingRun.prove_eq_ok hprove).2
  refine ⟨T, secrets, proof, st.uTilde, hT, hsecrets, ?_, hu, hvPrime, hhidden, hcommits, huTilde, ?_,
    ?_, fun a v hv hsecret => ?_, fun a x b ha => ?_⟩
  case refine_1 =>
    rw [newBlindedCredentialSecretsCorrectnessProof, hst, ok_bind]
    exact hrespond
  case refine_2 =>
    rw [← hvalues]
  case refine_3 =>
    rw [← hvPrime]
  case refine_4 =>
    refine hmCaps a v.value ?_
    rw [BlindingRun.secretValue, hv]
    exact if_pos hsecret
  case refine_5 =>
    have hm := BlindingRun.lookup_commitSecrets
      (BlindingRun.secretValue_of_commitment ha : B.secretValue a = some x) hst
    exact lookup_rCaps ha (hrTildes a x b ha) hm hcaps

section Check

variable {T : String → BigNumber} {uTilde : BigNumber} {nonce : Nonce}
variable {secrets : PrimaryBlindedCredentialSecretsFactors}
variable {proof : BlindedCredentialSecretsCorrectnessProof}
variable (h : Blinded env K values nonce draws T uTilde secrets proof)

include hn h

theorem Blinded.checkHiddenAttr (hbased : values.Based pPubKey)
    (ha : a ∈ values.names (·.isHidden)) {result : UrsaCryptoResult BigNumber}
    {u : (ZMod pPubKey.n.natAbs)ˣ} (hu : Computes pPubKey.n result u) :
    Computes pPubKey.n (Issuer.checkHiddenAttr pPubKey proof.mCaps result a)
      (K.r a ^ (proof.c * values.exponents a + (draws.mTilde a).value) * u) := by
  obtain ⟨value, hvalue, hhidden⟩ := CredentialValues.mem_names.mp ha
  obtain ⟨r, hr⟩ := Finmap.mem_iff.mp <| hbased a value hvalue
  have hmCap := h.mCaps a value hvalue <| by rw [isSecret, hhidden, Bool.true_or]
  rw [Issuer.checkHiddenAttr, hr, hmCap, okOrElse, okOrElse, ok_bind, ok_bind,
    CredentialValues.exponents_eq hvalue, mul_comm (K.r a ^ _)]
  exact hu.bind fun y hy => (computes_modExp hn (K.r_eq a r hr) _).bind fun _ hpower =>
    computes_modMul (ne_zero_of_one_lt hn) hy hpower

-- The issuer finds the commitments of the prover again.
theorem Blinded.checkCommittedAttr
    (hT : ∀ a, getPedersenCommitment pPubKey.z (draws.mTilde a).value pPubKey.s
      (draws.rTilde a).value pPubKey.n = .ok (T a))
    (ha : secrets.committedAttributes.lookup a = some ca) (bytes : List UInt8) :
    Issuer.checkCommittedAttr pPubKey proof bytes (a, ca) =
      .ok (bytes ++ ((T a).toBytes ++ ca.toBytes)) := by
  obtain ⟨x, b, hentry, hca⟩ := h.commits.2 a ca ha
  have hvalue := BTreeMap.mem_iter.mp hentry
  have hmCap := h.mCaps a _ hvalue rfl
  have hrCap := h.rCaps a x b hvalue
  obtain ⟨inverse, hinverse, -, hcast⟩ := computes_inverse hn hca.cast
  obtain ⟨power, hpower, -, hcast⟩ := computes_modExp hn hcast proof.c
  have hcommit := computes_getPedersenCommitment hn K.z_eq K.s_eq
    (proof.c * x + (draws.mTilde a).value) ((draws.rTilde a).value + proof.c * b)
  obtain ⟨commitment, hcommitment, -, hcommitmentCast⟩ := hcommit
  have hcap := computes_modMul (ne_zero_of_one_lt hn) hcast hcommitmentCast
  have hscale : K.commit (proof.c * x + (draws.mTilde a).value)
      ((draws.rTilde a).value + proof.c * b) /
      K.commit (draws.mTilde a).value (draws.rTilde a).value = K.commit x b ^ proof.c :=
    ClKey.commit_scale (add_sub_cancel_right _ _) (add_sub_cancel_left _ _)
  rw [inv_zpow, ← ClKey.commit, Sigma.complete_power hscale, ClKey.commit] at hcap
  have hcap := hcap.unique <| computes_getPedersenCommitment hn K.z_eq K.s_eq _ _
  rw [hT] at hcap
  simp only [Issuer.checkCommittedAttr, hmCap, hrCap, okOrElse, hinverse, hpower, hcommitment, hcap,
    CredentialValue.value, ok_bind, List.append_assoc]
  rfl

theorem Blinded.uCap (hbased : values.Based pPubKey) :
    ∃ inverse power blinding, secrets.u.inverse pPubKey.n = .ok inverse ∧
      inverse.modExp proof.c pPubKey.n = .ok power ∧
      pPubKey.s.modExp proof.vDashCap pPubKey.n = .ok blinding ∧
      foldResult (Issuer.checkHiddenAttr pPubKey proof.mCaps) (power.modMul blinding pPubKey.n)
        (BTreeSet.iter secrets.hiddenAttributes) = .ok uTilde := by
  obtain ⟨inverse, hinverse, -, hcast⟩ := computes_inverse hn h.u.cast
  obtain ⟨power, hpower, -, hpowerCast⟩ := computes_modExp hn hcast proof.c
  obtain ⟨blinding, hblinding, -, hblindingCast⟩ := computes_modExp hn K.s_eq proof.vDashCap
  refine ⟨inverse, power, blinding, hinverse, hpower, hblinding, ?_⟩
  have hfold := computes_foldResult _
    (fun a ha _ _ hu => h.checkHiddenAttr hn hbased (BTreeSet.mem_iter.mp ha) hu)
    (computes_modMul (ne_zero_of_one_lt hn) hpowerCast hblindingCast)
  have hattrs : K.attributes (fun a => proof.c * values.exponents a + (draws.mTilde a).value)
        (values.names (·.isHidden)) =
      K.attributes values.exponents (values.names (·.isHidden)) ^ proof.c *
        K.attributes (fun a => (draws.mTilde a).value) (values.names (·.isHidden)) :=
    ClKey.attributes_scale fun _ _ => add_sub_cancel_right _ _
  rw [prod_iter_set, ← ClKey.attributes, hattrs, h.vDashCap,
    ClKey.zpow_scale (add_sub_cancel_right _ _), inv_zpow, mul_zpow,
    Sigma.complete_product] at hfold
  rw [h.hiddenAttributes]
  exact hfold.unique h.tilde

theorem Blinded.check_ok (hbased : values.Based pPubKey)
    (hT : ∀ a, getPedersenCommitment pPubKey.z (draws.mTilde a).value pPubKey.s
      (draws.rTilde a).value pPubKey.n = .ok (T a)) {blinded : BlindedCredentialSecrets C}
    (hu : blinded.u = secrets.u) (hhidden : blinded.hiddenAttributes = secrets.hiddenAttributes)
    (hcommitted : blinded.committedAttributes = secrets.committedAttributes) :
    Issuer.checkBlindedCredentialSecretsCorrectnessProof env blinded proof nonce pPubKey =
      .ok () := by
  obtain ⟨inverse, power, blinding, hinverse, hpower, hblinding, huCap⟩ := h.uCap hn hbased
  have hkeys : secrets.committedAttributes.keys = values.names (·.isCommitment) := by
    ext a
    simp only [Finmap.mem_keys, h.commits.1, CredentialValues.mem_names, BTreeMap.mem_iter]
    constructor
    case mp =>
      rintro ⟨x, b, ha⟩
      exact ⟨_, ha, rfl⟩
    case mpr =>
      rintro ⟨value, ha, hcommitment⟩
      cases value <;> cases hcommitment
      exact ⟨_, _, ha⟩
  have hcommittedBytes := foldlM_append
    (fun entry hentry bytes => h.checkCommittedAttr hn hT (BTreeMap.mem_iter.mp hentry) bytes) []
  have hbytes := BTreeMap.map_iter (fun entry => (T entry.1).toBytes ++ toBytes entry.2) 0
    secrets.committedAttributes
  rw [List.nil_append, List.flatMap_def, hbytes, hkeys, ← List.flatMap_def] at hcommittedBytes
  rw [Issuer.checkBlindedCredentialSecretsCorrectnessProof, hu, hhidden, hcommitted]
  simp only [hinverse, hpower, hblinding, huCap, hcommittedBytes, ok_bind]
  exact if_neg <| not_not.mpr h.c

end Check

end Blinding

section Processing

open Prover (isSigned mulSignedAttr signedEntries)

-- The attributes in a signature: those of the issuer, and those that the prover hides.
theorem attributes_signed (K : UnitKey pPubKey) (m : String → ℤ) :
    K.attributes m (values.names isSigned) =
      K.attributes m (values.names (·.isKnown)) * K.attributes m (values.names (·.isHidden)) := by
  have hdisjoint : Disjoint (values.names (·.isKnown)) (values.names (·.isHidden)) := by
    rw [Finset.disjoint_left]
    intro a hknown hhidden
    obtain ⟨value, hvalue, hknown⟩ := CredentialValues.mem_names.mp hknown
    obtain ⟨value', hvalue', hhidden⟩ := CredentialValues.mem_names.mp hhidden
    obtain rfl := Option.some.inj <| hvalue.symm.trans hvalue'
    cases value
    case known => cases hhidden
    case hidden => cases hknown
    case commitment => cases hknown
  have hunion : values.names isSigned =
      values.names (·.isKnown) ∪ values.names (·.isHidden) := by
    ext a
    simp only [Finset.mem_union, CredentialValues.mem_names, isSigned, Bool.or_eq_true,
      and_or_left, exists_or]
  rw [hunion, ClKey.attributes, Finset.prod_union hdisjoint]
  rfl

theorem computes_mulSignedAttr (hn : 1 < pPubKey.n.natAbs) (K : UnitKey pPubKey)
    {entry : String × CredentialValue} (hbase : entry.1 ∈ pPubKey.r) {y : ℤ}
    {w : (ZMod pPubKey.n.natAbs)ˣ} (hy : (y : ZMod pPubKey.n.natAbs) = w) :
    Computes pPubKey.n (mulSignedAttr pPubKey y entry) (K.r entry.1 ^ entry.2.value * w) := by
  obtain ⟨r, hr⟩ := Finmap.mem_iff.mp hbase
  rw [mulSignedAttr, hr, okOrElse, ok_bind, mul_comm]
  exact (computes_modExp hn (K.r_eq _ r hr) _).bind fun _ hpower =>
    computes_modMul (ne_zero_of_one_lt hn) hy hpower

theorem computes_rx (hn : 1 < pPubKey.n.natAbs) (K : UnitKey pPubKey)
    (hbased : values.Based pPubKey) (v m2 : ℤ) :
    Computes pPubKey.n
      (getPedersenCommitment pPubKey.s v pPubKey.rctxt m2 pPubKey.n >>= fun rx =>
        (signedEntries values).foldlM (mulSignedAttr pPubKey) rx)
      (K.attributes values.exponents (values.names isSigned) * (K.s ^ v * K.rctxt ^ m2)) := by
  have hprod := CredentialValues.prod_filter_iter values isSigned fun a x => K.r a ^ x
  rw [ClKey.attributes, ← hprod]
  exact computes_foldlM _ (fun entry hentry _ _ hy => computes_mulSignedAttr hn K (hbased entry.1
    entry.2 <| BTreeMap.mem_iter.mp (List.mem_filter.mp hentry).1) hy)
    (computes_getPedersenCommitment hn K.s_eq K.rctxt_eq v m2)

-- What the issuer leaves to the prover: a root of what the key has for the attributes, and the
-- proof that it is one.
theorem checkSignatureCorrectnessProof_ok (hn : 1 < pPubKey.n.natAbs) (K : UnitKey pPubKey)
    (hbased : values.Based pPubKey) (hprime : isPrime pCred.e = .ok true)
    {root : (ZMod pPubKey.n.natAbs)ˣ} {N d r : ℤ} (hN : root ^ N = 1) (hd : N ∣ d * pCred.e - 1)
    (hz : root * (K.attributes values.exponents (values.names isSigned) *
      (K.s ^ (pCred.v : ℤ) * K.rctxt ^ (pCred.m2 : ℤ))) = K.z)
    (hq : Computes pPubKey.n (.ok q) root) (ha : (pCred.a : ZMod pPubKey.n.natAbs) = ↑(root ^ d))
    (haCap : q.modExp r pPubKey.n = .ok aCap)
    (hc : proof.c =
      getHashAsInt env [q.toBytes ++ pCred.a.toBytes ++ aCap.toBytes ++ nonce.toBytes])
    (hse : proof.se = (r - proof.c * d % N) % N) :
    Prover.checkSignatureCorrectnessProof env isPrime pCred values proof pPubKey nonce = .ok () := by
  have hroot : (root ^ d) ^ (pCred.e : ℤ) = root := ClKey.zpow_root hN hd
  have hrx := computes_rx hn K hbased pCred.v pCred.m2
  obtain ⟨rx, hrx, -, hrxCast⟩ := hrx
  obtain ⟨rx₀, hrx₀, hrx⟩ := bind_eq_ok_iff.mp hrx
  have hdiv := computes_modDiv hn K.z_eq hrxCast
  rw [← hz, mul_div_cancel_right] at hdiv
  have hexp := computes_modExp hn ha pCred.e
  rw [hroot] at hexp
  have hse : root ^ (proof.se : ℤ) = root ^ (r - proof.c * d) := by
    rw [hse, ← zpow_eq_zpow_emod _ hN, zpow_sub, zpow_sub, ← zpow_eq_zpow_emod _ hN]
  have hdegree : (root ^ d) ^ (proof.c + proof.se * pCred.e : ℤ) = root ^ r := by
    rw [zpow_add, mul_comm proof.se, zpow_mul, hroot, hse, ← zpow_mul, ← zpow_add, mul_comm d,
      add_sub_cancel]
  have hcap := computes_modExp hn ha (proof.c + proof.se * pCred.e)
  rw [hdegree] at hcap
  have hcap := (hcap.unique <| computes_modExp hn hq.cast r).trans haCap
  exact Prover.checkSignatureCorrectnessProof_eq_ok_iff.mpr ⟨hprime, fun entry hentry =>
    hbased entry.1 entry.2 <| BTreeMap.mem_iter.mp (List.mem_filter.mp hentry).1,
    rx₀, rx, q, aCap, hrx₀, hrx, hdiv.unique hq, hexp.unique hq, hcap, hc⟩

end Processing

namespace Issuer

variable {pubKey : CredentialPublicKey C} {privKey : CredentialPrivateKey C}
variable {blinded : BlindedCredentialSecrets C} {signDraws : SignDraws}
variable {proof : BlindedCredentialSecretsCorrectnessProof}

theorem signPrimaryCredential_canonical {credContext v e : BigNumber}
    (h : signPrimaryCredential pubKey privKey credContext values v blinded e = .ok (a, q)) :
    0 ≤ q ∧ q < pubKey.pKey.n.natAbs := by
  simp only [signPrimaryCredential, modDiv, bind_eq_ok_iff, pure_eq_ok_iff, Prod.mk.injEq] at h
  obtain ⟨_, -, _, -, _, -, _, -, _, -, _, ⟨_, -, hq⟩, _, -, _, -, -, rfl⟩ := h
  exact modMul_canonical hq

theorem signCredential_eq_ok
    (h : signCredential env proverId blinded proof nonce issuanceNonce values pubKey privKey
      signDraws = .ok (signature, correctness)) :
    let N : ℤ := privKey.pKey.p * privKey.pKey.q
    ∃ a q r aCap eInverse,
      signature =
        { pCredential :=
            { m2 := genCredentialContext env proverId none
              a := a
              e := signDraws.e.value
              v := generateVPrimePrime signDraws.vPrimePrime }
          rCredential := none } ∧
      signPrimaryCredential pubKey privKey (genCredentialContext env proverId none) values
        (generateVPrimePrime signDraws.vPrimePrime) blinded signDraws.e.value = .ok (a, q) ∧
      q.modExp r pubKey.pKey.n = .ok aCap ∧
      correctness.c =
        getHashAsInt env [q.toBytes ++ a.toBytes ++ aCap.toBytes ++ issuanceNonce.toBytes] ∧
      signDraws.e.value.inverse N = .ok eInverse ∧
      correctness.se = (r - correctness.c * eInverse % N) % N := by
  intro N
  simp only [signCredential, newPrimaryCredential, newSignatureCorrectnessProof, bind_eq_ok_iff,
    pure_eq_ok_iff, Prod.mk.injEq] at h
  obtain ⟨⟨⟩, -, _, ⟨⟨a, q⟩, hsign, rfl⟩, _, ⟨r, -, aCap, haCap, eInverse, he, product, hproduct, se,
    hse, rfl⟩, rfl, rfl⟩ := h
  obtain ⟨-, rfl⟩ := modMul_eq_ok_iff.mp hproduct
  unfold modSub at hse
  split_ifs at hse
  exact ⟨a, q, r, aCap, eInverse, rfl, hsign, haCap, rfl, he, (Except.ok.inj hse).symm⟩

end Issuer

section Complete

variable {pubKey : CredentialPublicKey C} {privKey : CredentialPrivateKey C}
variable {metadata : CredentialPrimaryPublicKeyMetadata} {keyDraws : Issuer.PrimaryKeyDraws}
variable {issuerValues : CredentialValues} {signDraws : SignDraws}

theorem Issuer.canSign_of_based {K : UnitKey pubKey.pKey} (hn : 1 < pubKey.pKey.n.natAbs)
    (hbased : values.Based pubKey.pKey)
    (hknown : Issuer.knownAttrs issuerValues = Issuer.knownAttrs values)
    (horder : 1 < privKey.pKey.p * privKey.pKey.q)
    (he : Int.gcd signDraws.e.value (privKey.pKey.p * privKey.pKey.q) = 1) (env : Env)
    (proverId : String) :
    Issuer.CanSign env proverId pubKey privKey issuerValues signDraws where
  n := hn
  s := ModArith.isUnit_cast_iff.mp <| K.s_eq ▸ K.s.isUnit
  rctxt := .inr <| ModArith.isUnit_cast_iff.mp <| K.rctxt_eq ▸ K.rctxt.isUnit
  known a x h := by
    have hentry : (a, CredentialValue.known x) ∈ Issuer.knownAttrs values :=
      hknown ▸ Issuer.mem_knownAttrs.mpr ⟨x, rfl, h⟩
    obtain ⟨x', hx', hvalue⟩ := Issuer.mem_knownAttrs.mp hentry
    obtain ⟨r, hr⟩ := Finmap.mem_iff.mp <| hbased a _ hvalue
    exact ⟨r, hr, .inr <| ModArith.isUnit_cast_iff.mp <| K.r_eq a r hr ▸ (K.r a).isUnit⟩
  order := horder
  e := he

theorem attributes_known {K : UnitKey pPubKey}
    (hknown : Issuer.knownAttrs issuerValues = Issuer.knownAttrs values) :
    K.attributes issuerValues.exponents (issuerValues.names (·.isKnown)) =
      K.attributes values.exponents (values.names (·.isKnown)) := by
  rw [ClKey.attributes, ClKey.attributes,
    ← CredentialValues.prod_filter_iter issuerValues (·.isKnown) fun a x => K.r a ^ x,
    ← CredentialValues.prod_filter_iter values (·.isKnown) fun a x => K.r a ^ x]
  exact congrArg (fun l : List (String × CredentialValue) =>
    (l.map fun entry => K.r entry.1 ^ (entry.2.value : ℤ)).prod) hknown

theorem Issuer.PowerKey.root_zpow_order {K : UnitKey pPubKey} (hK : Issuer.PowerKey K metadata)
    {N : ℤ} (hN : K.s ^ N = 1) {root : (ZMod pPubKey.n.natAbs)ˣ} {v'' v' m2 : ℤ}
    {m m' : String → ℤ} {w w' : Finset String}
    (hz : root * (K.s ^ v'' * (K.s ^ v' * K.attributes m' w') * K.rctxt ^ m2 *
      K.attributes m w) = K.z) : root ^ N = 1 := by
  have hattrs {m : String → ℤ} {w : Finset String} :
      K.attributes m w ∈ Subgroup.zpowers K.s := ClKey.attributes_mem hK.within
  have hroot : root ∈ Subgroup.zpowers K.s := by
    rw [eq_div_of_mul_eq' hz]
    refine div_mem hK.within.z <| mul_mem (mul_mem (mul_mem ?_ ?_) ?_) hattrs
    · exact zpow_mem hK.within.s _
    · exact mul_mem (zpow_mem hK.within.s _) hattrs
    · exact zpow_mem hK.within.rctxt _
  obtain ⟨k, rfl⟩ := Subgroup.mem_zpowers_iff.mp hroot
  rw [← zpow_mul, mul_comm, zpow_mul, hN, one_zpow]

-- What the prover makes of the signature on its blinded secrets.
theorem attempt_signed {K : UnitKey pubKey.pKey} (hn : 1 < pubKey.pKey.n.natAbs)
    (hK : Issuer.PowerKey K metadata)
    (horder : K.s ^ (privKey.pKey.p * privKey.pKey.q : ℤ) = 1)
    (hbased : values.Based pubKey.pKey)
    (hknown : Issuer.knownAttrs issuerValues = Issuer.knownAttrs values)
    (hprime : isPrime signDraws.e.value = .ok true)
    (hblinded : Blinded env K values credentialNonce draws T uTilde secrets proof)
    {blinded : BlindedCredentialSecrets C} (hu : blinded.u = secrets.u)
    {factors : CredentialSecretsBlindingFactors C} (hv : factors.vPrime = secrets.vPrime)
    (hsign : Issuer.signCredential env proverId blinded proof credentialNonce issuanceNonce
      issuerValues pubKey privKey signDraws = .ok (signature, correctness))
    (revKeyPub : Option (RevocationKeyPublic C)) (revReg : Option (RevocationRegistry C))
    (witness : Option (Witness C)) :
    ∃ processed, Prover.processCredentialSignature env isPrime signature values correctness factors
        pubKey issuanceNonce revKeyPub revReg witness = (.ok (), processed) ∧
      ∃ A : (ZMod pubKey.pKey.n.natAbs)ˣ,
        (processed.pCredential.a : ZMod pubKey.pKey.n.natAbs) = A ∧
        K.z = K.represent A processed.pCredential.e processed.pCredential.v
          processed.pCredential.m2 values.exponents (values.names Prover.isSigned) := by
  obtain ⟨a, q, r, aCap, eInverse, rfl, hprimary, haCap, hc, heInverse, hse⟩ :=
    Issuer.signCredential_eq_ok hsign
  obtain ⟨root, _, hroot, hz, heInverse', ha⟩ :=
    Issuer.signPrimaryCredential_eq_ok K (hu ▸ hblinded.u.cast) hprimary
  obtain rfl := Except.ok.inj <| heInverse.symm.trans heInverse'
  rw [attributes_known hknown] at hz
  have hN := hK.root_zpow_order horder hz
  have hd := dvd_of_inverse heInverse
  let pCred : PrimaryCredentialSignature :=
    { m2 := Issuer.genCredentialContext env proverId none
      a := a
      e := signDraws.e.value
      v := secrets.vPrime + generateVPrimePrime signDraws.vPrimePrime }
  have hz : root * (K.attributes values.exponents (values.names Prover.isSigned) *
      (K.s ^ (pCred.v : ℤ) * K.rctxt ^ (pCred.m2 : ℤ))) = K.z := by
    have hpow : K.s ^ (pCred.v : ℤ) =
        K.s ^ secrets.vPrime * K.s ^ generateVPrimePrime signDraws.vPrimePrime := zpow_add ..
    rw [attributes_signed, hpow, ← hz, hblinded.vPrime]
    ac_rfl
  have hcheck : Prover.checkSignatureCorrectnessProof env isPrime pCred values correctness
      pubKey.pKey issuanceNonce = .ok () :=
    checkSignatureCorrectnessProof_ok hn K hbased hprime hN hd hz
      ⟨q, rfl, Issuer.signPrimaryCredential_canonical hprimary, hroot⟩ ha haCap hc hse
  let inputs : Prover.ProcessingInputs C :=
    { credentialValues := values
      signatureCorrectnessProof := correctness
      credentialPubKey := pubKey
      nonce := issuanceNonce
      revKeyPub, revReg, witness }
  let issued : CredentialSignature C :=
    { pCredential :=
        { pCred with v := generateVPrimePrime signDraws.vPrimePrime }
      rCredential := none }
  have hprocess : Prover.processPrimaryCredential issued.pCredential factors.vPrime = pCred := by
    rw [hv]
    rfl
  have hattempt : Prover.checkAttempt env isPrime factors issued inputs = .ok () := by
    rw [Prover.checkAttempt, hprocess]
    exact hcheck
  have hrun := Prover.attempt_primary hattempt rfl
  rw [hprocess] at hrun
  refine ⟨_, hrun, root ^ eInverse, ha, ?_⟩
  rw [ClKey.represent, ClKey.zpow_root hN hd, ← hz]
  ac_rfl

-- The issuer may have its own values, as long as it knows what the prover says that it knows.
theorem issuance_complete
    (hkeys : Issuer.newCredentialPrimaryKeys env credSchema nonCredSchema keyDraws =
      .ok (pubKey.pKey, privKey.pKey, metadata))
    (hprimes : keyDraws.pSafe.value ≠ keyDraws.qSafe.value)
    (hs : Int.gcd pubKey.pKey.s pubKey.pKey.n = 1)
    (hkeyProof : Issuer.newCredentialKeyCorrectnessProof env pubKey.pKey privKey.pKey metadata
      keyProofDraws = .ok keyProof)
    (hbased : values.Based pubKey.pKey)
    (hknown : Issuer.knownAttrs issuerValues = Issuer.knownAttrs values)
    (he : Int.gcd signDraws.e.value (privKey.pKey.p * privKey.pKey.q) = 1)
    (hprime : isPrime signDraws.e.value = .ok true) (credentialNonce issuanceNonce : Nonce)
    (draws : Prover.BlindingDraws) (vrPrime : GroupOrderElement C) (proverId : String)
    (revKeyPub : Option (RevocationKeyPublic C)) (revReg : Option (RevocationRegistry C))
    (witness : Option (Witness C)) :
    ∃ blinded factors proof signature correctness processed,
      Prover.blindCredentialSecrets env pubKey keyProof values credentialNonce draws vrPrime =
        .ok (blinded, factors, proof) ∧
      Issuer.checkBlindedCredentialSecretsCorrectnessProof env blinded proof credentialNonce
        pubKey.pKey = .ok () ∧
      Issuer.signCredential env proverId blinded proof credentialNonce issuanceNonce issuerValues
        pubKey privKey signDraws = .ok (signature, correctness) ∧
      Prover.processCredentialSignature env isPrime signature values correctness factors pubKey
        issuanceNonce revKeyPub revReg witness = (.ok (), processed) ∧
      ∃ (K : UnitKey pubKey.pKey) (A : (ZMod pubKey.pKey.n.natAbs)ˣ),
        (processed.pCredential.a : ZMod pubKey.pKey.n.natAbs) = A ∧
        K.z = K.represent A processed.pCredential.e processed.pCredential.v
          processed.pCredential.m2 values.exponents (values.names Prover.isSigned) := by
  have hgen := Issuer.newCredentialPrimaryKeys_eq_ok hkeys
  have hn := hgen.one_lt_n
  obtain ⟨K, hK, horder⟩ := hgen.exists_unitKey hs hprimes
  have hkeyCheck := Issuer.checkCredentialKeyCorrectnessProof_ok rfl hK hn hkeyProof
  obtain ⟨T, secrets, proof, uTilde, hT, hsecrets, hproof, hblinded⟩ :=
    blind_ok env K hn hbased credentialNonce draws
  let revocation := pubKey.rKey.map fun rPk =>
    Prover.generateBlindedRevocationCredentialSecrets rPk vrPrime
  let blinded : BlindedCredentialSecrets C :=
    { u := secrets.u
      ur := revocation.map (·.ur)
      hiddenAttributes := secrets.hiddenAttributes
      committedAttributes := secrets.committedAttributes }
  let factors : CredentialSecretsBlindingFactors C :=
    { vPrime := secrets.vPrime, vrPrime := revocation.map (·.vrPrime) }
  have hblind : Prover.blindCredentialSecrets env pubKey keyProof values credentialNonce draws
      vrPrime = .ok (blinded, factors, proof) := by
    rw [Prover.blindCredentialSecrets, hkeyCheck, ok_bind, hsecrets, ok_bind, hproof, ok_bind]
    rfl
  have hcheck : Issuer.checkBlindedCredentialSecretsCorrectnessProof env blinded proof
      credentialNonce pubKey.pKey = .ok () := hblinded.check_ok hn hbased hT rfl rfl rfl
  have hcan : Issuer.CanSign env proverId pubKey privKey issuerValues signDraws :=
    Issuer.canSign_of_based (K := K) hn hbased hknown hgen.one_lt_order he env proverId
  obtain ⟨⟨signature, correctness⟩, hsign⟩ :=
    Issuer.signCredential_ok hcan hcheck issuanceNonce
  have hu : blinded.u = secrets.u := rfl
  have hv : factors.vPrime = secrets.vPrime := rfl
  obtain ⟨processed, hprocess, hrepresent⟩ := attempt_signed hn hK horder hbased hknown hprime
    hblinded hu hv hsign revKeyPub revReg witness
  exact ⟨blinded, factors, proof, signature, correctness, processed, hblind, hcheck, hsign, hprocess,
    K, hrepresent⟩

end Complete

section Mod77

open ProofVerifier (curveMod11 mod11)

def keyDraws77 : Issuer.PrimaryKeyDraws where
  pSafe := ⟨7, Nat.prime_seven, Nat.prime_three⟩
  qSafe := ⟨11, Nat.prime_eleven, Nat.prime_five⟩
  s := 2
  xz := 5
  xr _ := 3
  rctxt := 4

def identityPubKey : CredentialPublicKey curveMod11 where
  pKey :=
    { n := 77
      s := 4
      r := (((∅ : HashMap BigNumber).insert "age" 23).insert "link" 23).insert "name" 23
      rctxt := 15
      z := 60 }
  rKey := none

def identityMetadata : CredentialPrimaryPublicKeyMetadata where
  xz := 7
  xr := (((∅ : HashMap BigNumber).insert "link" 5).insert "age" 5).insert "name" 5

-- One value of each kind.
def identityValues : CredentialValues where
  attrsValues := (((∅ : BTreeMap CredentialValue).insert "age" (.known 20)).insert "link"
    (.commitment 5 2)).insert "name" (.hidden (-3))

-- The least prime that is large enough.
def primeDraw : PrimeDraw where
  value := largeEStartValue + 67
  start_le := by decide +kernel
  lt_end := by decide +kernel

-- A probabilistic test with one base.
def fermatTest (x : BigNumber) : UrsaCryptoResult Bool :=
  .ok <| decide (ModArith.powMod x.toNat 2 (x.toNat - 1) = 1)

def keyProofDraws77 : Issuer.KeyProofDraws where
  xzTilda := 1
  xrTilda _ := 1

def signDraws77 : SignDraws where
  vPrimePrime := .zero
  e := primeDraw
  r := 0

def blindingDraws77 : Prover.BlindingDraws where
  vPrime := .zero
  vDashTilde := .zero
  mTilde _ := .zero
  rTilde _ := .zero

theorem issuance_complete_identity :
    let env : Env := .sorted Prover.hashLastByte fun _ => rfl
    let issuerValues : CredentialValues := ⟨(∅ : BTreeMap CredentialValue).insert "age" (.known 20)⟩
    ∃ keyProof blinded factors proof signature correctness processed,
      Issuer.newCredentialKeyCorrectnessProof env identityPubKey.pKey
        (Issuer.issuerPrivKey curveMod11).pKey identityMetadata keyProofDraws77 = .ok keyProof ∧
      Prover.blindCredentialSecrets env identityPubKey keyProof identityValues 1 blindingDraws77
        (mod11 1) = .ok (blinded, factors, proof) ∧
      Issuer.checkBlindedCredentialSecretsCorrectnessProof env blinded proof 1
        identityPubKey.pKey = .ok () ∧
      Issuer.signCredential env "prover" blinded proof 1 2 issuerValues identityPubKey
        (Issuer.issuerPrivKey curveMod11) signDraws77 = .ok (signature, correctness) ∧
      Prover.processCredentialSignature env fermatTest signature identityValues correctness factors
        identityPubKey 2 none none none = (.ok (), processed) ∧
      ∃ (K : UnitKey identityPubKey.pKey) (A : (ZMod identityPubKey.pKey.n.natAbs)ˣ),
        (processed.pCredential.a : ZMod identityPubKey.pKey.n.natAbs) = A ∧
        K.z = K.represent A processed.pCredential.e processed.pCredential.v
          processed.pCredential.m2 identityValues.exponents
          (identityValues.names Prover.isSigned) := by
  intro env issuerValues
  have hkeys : Issuer.newCredentialPrimaryKeys env ⟨{"age", "name"}⟩ ⟨{"link"}⟩ keyDraws77 =
      .ok (identityPubKey.pKey, (Issuer.issuerPrivKey curveMod11).pKey, identityMetadata) := rfl
  have hkeyProof : Issuer.newCredentialKeyCorrectnessProof env identityPubKey.pKey
      (Issuer.issuerPrivKey curveMod11).pKey identityMetadata keyProofDraws77 =
      .ok { c := 64, xzCap := 451, xrCap := [("age", 323), ("link", 323), ("name", 323)] } := rfl
  have hbased : identityValues.Based identityPubKey.pKey := by
    have hkeys : identityValues.attrsValues.keys ⊆ identityPubKey.pKey.r.keys := by decide +kernel
    exact fun a v hv => Finmap.mem_keys.mp <| hkeys <| Finmap.mem_keys.mpr <|
      Finmap.mem_of_lookup_eq_some hv
  have hprimes : keyDraws77.pSafe.value ≠ keyDraws77.qSafe.value := by decide
  have hs : Int.gcd identityPubKey.pKey.s identityPubKey.pKey.n = 1 := by decide
  have hknown : Issuer.knownAttrs issuerValues = Issuer.knownAttrs identityValues := by
    decide +kernel
  have he : Int.gcd signDraws77.e.value 15 = 1 := by decide +kernel
  have hprime : fermatTest signDraws77.e.value = .ok true := by decide +kernel
  obtain ⟨blinded, factors, proof, signature, correctness, processed, h⟩ :=
    issuance_complete hkeys hprimes hs hkeyProof hbased hknown he hprime 1 2 blindingDraws77
      (mod11 1) "prover" none none none
  exact ⟨_, blinded, factors, proof, signature, correctness, processed, hkeyProof, h⟩

end Mod77

end Ursa
