import Ursa.Cl.Theorems.Helpers
import Ursa.Cl.Verifier

namespace Ursa

open BigNumber UrsaCryptoResult

variable {C : Curve} {env : Env}

-- The responses for the common attributes in the equality part.
abbrev SubProof.m (proofItem : SubProof C) : HashMap BigNumber :=
  proofItem.primaryProof.eqProof.m

namespace VerifiableCredential

def unrevealed (cred : VerifiableCredential C) : HashSet String :=
  ProofVerifier.unrevealedAttrs cred.credentialSchema cred.nonCredentialSchema cred.subProofRequest

-- What the verifier's own data must be like for any proof to pass: nothing here is about the
-- prover. `common` are the values that the verifier has kept.
structure Usable (common : HashMap (Option BigNumber)) (cred : VerifiableCredential C) : Prop where
  n : 1 < cred.pubKey.pKey.n.natAbs
  z : Int.gcd cred.pubKey.pKey.z cred.pubKey.pKey.n = 1
  base : ∀ a ∈ cred.unrevealed ∪ cred.subProofRequest.revealedAttrs, a ∈ cred.pubKey.pKey.r
  kept : ∀ a ∈ cred.unrevealed, ∀ x r, common.lookup a = some (some x) →
    cred.pubKey.pKey.r.lookup a = some r → PowDefined r x cred.pubKey.pKey.n

end VerifiableCredential

namespace ProofVerifier

variable {self : ProofVerifier C} {proof : Proof C} {nonce : Nonce}
variable {common common' : HashMap (Option BigNumber)} {cHash : ℤ} {attrName : String}
variable {proofItem : SubProof C} {credential : VerifiableCredential C}
variable {items : List (SubProof C × VerifiableCredential C)}

def Accepts (self : ProofVerifier C) (env : Env) (proof : Proof C) (nonce : Nonce) : Prop :=
  (verify env self proof nonce).1 = .ok true

def verifyPrimaryPart (env : Env) (cHash : BigNumber) (item : SubProof C × VerifiableCredential C) :
    UrsaCryptoResult (List BigNumber) :=
  verifyPrimaryProof env item.2.pubKey.pKey cHash item.1.primaryProof item.2.credentialSchema
    item.2.nonCredentialSchema item.2.subProofRequest

section CommonAttributes

variable {m : HashMap BigNumber} {l l₁ l₂ : List String} {common₁ : HashMap (Option BigNumber)}

-- What the check of the attributes `l` against the responses `m` does to the values that are kept.
structure CommonStep (m : HashMap BigNumber) (l : List String)
    (common common' : HashMap (Option BigNumber)) : Prop where
  mem_iff : ∀ a, a ∈ common' ↔ a ∈ common
  kept : ∀ a x, common.lookup a = some (some x) → common'.lookup a = some (some x)
  response : ∀ a ∈ l, a ∈ common →
    ∃ x, m.lookup a = some x ∧ common'.lookup a = some (some x)

namespace CommonStep

theorem nil : CommonStep m [] common common where
  mem_iff _ := Iff.rfl
  kept _ _ := id
  response _ ha := by cases ha

theorem append (h₁ : CommonStep m l₁ common common₁) (h₂ : CommonStep m l₂ common₁ common') :
    CommonStep m (l₁ ++ l₂) common common' where
  mem_iff a := (h₂.mem_iff a).trans (h₁.mem_iff a)
  kept a x ha := h₂.kept a x <| h₁.kept a x ha
  response a ha hcommon := by
    cases List.mem_append.mp ha
    case inl ha =>
      obtain ⟨x, hx, hkept⟩ := h₁.response a ha hcommon
      exact ⟨x, hx, h₂.kept a x hkept⟩
    case inr ha => exact h₂.response a ha <| (h₁.mem_iff a).mpr hcommon

-- A value that was kept before is the response.
theorem lookup_eq (h : CommonStep m l common common') (ha : a ∈ l)
    (hx : common.lookup a = some (some x)) : m.lookup a = some x := by
  obtain ⟨y, hy, hkept⟩ := h.response a ha <| Finmap.mem_of_lookup_eq_some hx
  obtain rfl := Option.some.inj <| Option.some.inj <| (h.kept a x hx).symm.trans hkept
  exact hy

end CommonStep

theorem checkCommonAttribute_eq_ok (h : checkCommonAttribute m common attrName = .ok common') :
    CommonStep m [attrName] common common' := by
  unfold checkCommonAttribute at h
  split at h
  case h_1 => cases h
  case h_2 x hx =>
    split at h
    case h_1 v hv =>
      split at h
      case isTrue => cases h
      case isFalse hvx =>
        injection h with h
        subst h
        obtain rfl : v = x := not_not.mp hvx
        exact ⟨fun _ => Iff.rfl, fun _ _ => id, List.forall_mem_singleton.mpr fun _ => ⟨v, hx, hv⟩⟩
    case h_2 hv =>
      injection h with h
      subst h
      refine ⟨fun a => ?_, fun a y ha => ?_, ?_⟩
      · rw [Finmap.mem_insert]
        exact ⟨fun ha => ha.elim (· ▸ Finmap.mem_of_lookup_eq_some hv) id, .inr⟩
      · have hne : a ≠ attrName := by
          rintro rfl
          cases hv.symm.trans ha
        rwa [Finmap.lookup_insert_of_ne _ hne]
      · exact List.forall_mem_singleton.mpr fun _ => ⟨x, hx, Finmap.lookup_insert _⟩
    case h_3 hv =>
      injection h with h
      subst h
      refine ⟨fun _ => Iff.rfl, fun _ _ => id, ?_⟩
      exact List.forall_mem_singleton.mpr fun ha => absurd ha <| Finmap.lookup_eq_none.mp hv

theorem checkCommonAttributes_eq_ok (h : checkCommonAttributes m l common = (.ok (), common')) :
    CommonStep m l common common' := by
  induction l generalizing common
  case nil =>
    injection h with _ h
    exact h ▸ .nil
  case cons a l hi =>
    unfold checkCommonAttributes at h
    split at h
    case h_1 => cases h
    case h_2 common₁ ha => exact (checkCommonAttribute_eq_ok ha).append (hi h)

end CommonAttributes

section SubProofs

-- The check of one sub proof, all common attributes included.
theorem verifySubProof_eq_ok
    (h : verifySubProof env cHash proofItem credential common = (.ok taus, common')) :
    CommonStep proofItem.m (env.hashOrder common.keys) common common' ∧
      ∃ nonRevocTau tau, verifyNonRevocationPart cHash proofItem credential = .ok nonRevocTau ∧
        verifyPrimaryPart env cHash (proofItem, credential) = .ok tau ∧
        taus = nonRevocTau ++ tau.map BigNumber.toBytes := by
  unfold verifySubProof at h
  split at h
  case h_1 => cases h
  case h_2 nonRevocTau hnonRevoc =>
    split at h
    case h_1 => cases h
    case h_2 hcommon =>
      split at h
      case h_1 => cases h
      case h_2 tau htau =>
        injection h with htaus hcommon'
        injection htaus with htaus
        subst hcommon'
        exact ⟨checkCommonAttributes_eq_ok hcommon, nonRevocTau, tau, hnonRevoc, htau, htaus.symm⟩

theorem verifySubProofs_cons_eq_ok {item : SubProof C × VerifiableCredential C}
    (h : verifySubProofs env cHash (item :: items) common = (.ok taus, common')) :
    ∃ tau common₁ taus', verifySubProof env cHash item.1 item.2 common = (.ok tau, common₁) ∧
      verifySubProofs env cHash items common₁ = (.ok taus', common') ∧ taus = tau ++ taus' := by
  unfold verifySubProofs at h
  split at h
  case h_1 => cases h
  case h_2 tau common₁ hitem =>
    split at h
    case h_1 => cases h
    case h_2 taus' common₂ hitems =>
      injection h with htaus hcommon
      injection htaus with htaus
      exact ⟨tau, common₁, taus', hitem, hcommon ▸ hitems, htaus.symm⟩

-- Every part that is there was checked, and its values were hashed.
theorem verifySubProofs_eq_ok (h : verifySubProofs env cHash items common = (.ok taus, common')) :
    ∀ item ∈ items, ∃ nonRevocTau tau,
      verifyNonRevocationPart cHash item.1 item.2 = .ok nonRevocTau ∧
      verifyPrimaryPart env cHash item = .ok tau ∧
      nonRevocTau ++ tau.map BigNumber.toBytes <:+: taus := by
  induction items generalizing common taus
  case nil => simp
  case cons item items hi =>
    obtain ⟨tau, common₁, taus', hitem, hitems, rfl⟩ := verifySubProofs_cons_eq_ok h
    refine List.forall_mem_cons.mpr ⟨?_, fun item' hitem' => ?_⟩
    · obtain ⟨-, nonRevocTau, tau', hnonRevoc, hprimary, rfl⟩ := verifySubProof_eq_ok hitem
      exact ⟨nonRevocTau, tau', hnonRevoc, hprimary, (List.prefix_append _ _).isInfix⟩
    · obtain ⟨nonRevocTau, tau', hnonRevoc, hprimary, hinfix⟩ := hi hitems item' hitem'
      exact ⟨nonRevocTau, tau', hnonRevoc, hprimary,
        hinfix.trans (List.suffix_append _ _).isInfix⟩

-- A value that was kept before the call is the response in every sub proof.
theorem lookup_m_of_kept (h : verifySubProofs env cHash items common = (.ok taus, common'))
    (hx : common.lookup a = some (some x)) : ∀ item ∈ items, item.1.m.lookup a = some x := by
  induction items generalizing common taus
  case nil => simp
  case cons item items hi =>
    obtain ⟨tau, common₁, taus', hitem, hitems, rfl⟩ := verifySubProofs_cons_eq_ok h
    obtain ⟨hstep, -⟩ := verifySubProof_eq_ok hitem
    have ha : a ∈ env.hashOrder common.keys :=
      (env.mem_hashOrder _ _).mpr <| Finmap.mem_keys.mpr <| Finmap.mem_of_lookup_eq_some hx
    exact List.forall_mem_cons.mpr ⟨hstep.lookup_eq ha hx, hi hitems <| hstep.kept a x hx⟩

-- The sub proofs agree on the response for a common attribute: the first one fixes it.
theorem exists_lookup_m (h : verifySubProofs env cHash items common = (.ok taus, common'))
    (ha : a ∈ common) : ∃ x, ∀ item ∈ items, item.1.m.lookup a = some x := by
  cases items
  case nil => exact ⟨0, by simp⟩
  case cons item items =>
    obtain ⟨tau, common₁, taus', hitem, hitems, rfl⟩ := verifySubProofs_cons_eq_ok h
    obtain ⟨hstep, -⟩ := verifySubProof_eq_ok hitem
    obtain ⟨x, hx, hkept⟩ :=
      hstep.response a ((env.mem_hashOrder _ _).mpr <| Finmap.mem_keys.mpr ha) ha
    exact ⟨x, List.forall_mem_cons.mpr ⟨hx, lookup_m_of_kept hitems hkept⟩⟩

end SubProofs

section Verify

theorem checkSubProofParamsConsistency_ok_iff :
    checkSubProofParamsConsistency proofItem credential = .ok () ↔
      proofItem.primaryProof.eqProof.revealedAttrs.keys =
        credential.subProofRequest.revealedAttrs ∧
      (proofItem.primaryProof.neProofs.map (·.predicate)).toFinset =
        credential.subProofRequest.predicates := by
  simp only [checkSubProofParamsConsistency]
  split
  case isTrue h => simp [h]
  case isFalse h =>
    split
    case isTrue h' => simp [h']
    case isFalse h' => simp_all

theorem checkVerifyParamsConsistency_ok_iff {credentials : List (VerifiableCredential C)} :
    checkVerifyParamsConsistency credentials proof = .ok () ↔
      proof.proofs.length = credentials.length ∧
        ∀ item ∈ proof.proofs.zip credentials,
          checkSubProofParamsConsistency item.1 item.2 = .ok () := by
  unfold checkVerifyParamsConsistency
  split
  case isTrue h => simp [h]
  case isFalse h => rw [forM_eq_ok_iff, and_iff_right (not_not.mp h)]

theorem accepts_iff : self.Accepts env proof nonce ↔
    proof.proofs.length = self.credentials.length ∧
      (∀ item ∈ proof.proofs.zip self.credentials,
        checkSubProofParamsConsistency item.1 item.2 = .ok ()) ∧
      ∃ taus common', verifySubProofs env proof.aggregatedProof.cHash
          (proof.proofs.zip self.credentials) self.commonAttributes = (.ok taus, common') ∧
        getHashAsInt env (taus ++ proof.aggregatedProof.cList ++ [nonce.toBytes]) =
          proof.aggregatedProof.cHash := by
  rw [← and_assoc, ← checkVerifyParamsConsistency_ok_iff]
  unfold Accepts verify
  split
  case h_1 e he => simp [he]
  case h_2 hok =>
    rw [and_iff_right hok]
    split
    case h_1 heq => simp [heq]
    case h_2 tauList common' heq => simp [heq]

theorem exists_mem_zip (h : self.Accepts env proof nonce) (hc : credential ∈ self.credentials) :
    ∃ proofItem, (proofItem, credential) ∈ proof.proofs.zip self.credentials := by
  obtain ⟨hlen, -⟩ := accepts_iff.mp h
  rw [← List.map_snd_zip hlen.ge, List.mem_map] at hc
  obtain ⟨⟨proofItem, _⟩, hmem, rfl⟩ := hc
  exact ⟨proofItem, hmem⟩

theorem usable_of_verifyPrimaryPart
    (hcheck : checkSubProofParamsConsistency proofItem credential = .ok ())
    (hm : ∀ a x, common.lookup a = some (some x) → proofItem.m.lookup a = some x)
    (h : verifyPrimaryPart env cHash (proofItem, credential) = .ok tau) :
    credential.Usable common := by
  simp only [verifyPrimaryPart, verifyPrimaryProof, verifyEquality, bind_eq_ok_iff,
    pure_eq_ok_iff] at h
  obtain ⟨tHat, ⟨t₁, ht₁, x, hx, rar, hrar, quotient, hq, inverse, hinv, -⟩, -⟩ := h
  obtain ⟨hn₀, -, hattrs, -⟩ := calcTeq_ok_iff.mp ⟨t₁, ht₁⟩
  constructor
  case n => exact (inverse_eq_ok hinv).1
  case z =>
    obtain ⟨w, -, hquotient⟩ := modDiv_eq_ok hq
    have hunit := inverse_isUnit hinv
    rw [hquotient, Units.isUnit_mul_units] at hunit
    exact ModArith.isUnit_cast_iff.mp hunit
  case base =>
    intro a ha
    cases Finset.mem_union.mp ha
    case inl ha =>
      obtain ⟨r, _, hr, -⟩ := hattrs a ha
      exact Finmap.mem_of_lookup_eq_some hr
    case inr ha =>
      rw [← (checkSubProofParamsConsistency_ok_iff.mp hcheck).1, Finmap.mem_keys] at ha
      obtain ⟨x, hx⟩ := Finmap.mem_iff.mp ha
      refine foldlM_forall (Q := fun entry => entry.1 ∈ credential.pubKey.pKey.r)
        (fun entry _ b b' hb => ?_) hrar (a, x) (BTreeMap.mem_iter.mpr hx)
      simp only [verifyRevealedAttr, bind_eq_ok_iff, okOrElse_eq_ok_iff] at hb
      obtain ⟨r, hr, -⟩ := hb
      exact Finmap.mem_of_lookup_eq_some hr
  case kept =>
    intro a ha x r hx hr
    obtain ⟨r', x', hr', hx', hpow⟩ := hattrs a ha
    obtain rfl := Option.some.inj <| hr.symm.trans hr'
    obtain rfl := Option.some.inj <| (hm a x hx).symm.trans hx'
    exact hpow

-- Whatever the proof, it passes only if the verifier's own data allow it.
theorem usable_of_accepts (h : self.Accepts env proof nonce) (hc : credential ∈ self.credentials) :
    credential.Usable self.commonAttributes := by
  obtain ⟨proofItem, hmem⟩ := exists_mem_zip h hc
  obtain ⟨-, hcheck, taus, common', hverify, -⟩ := accepts_iff.mp h
  obtain ⟨_, tau, -, hprimary, -⟩ := verifySubProofs_eq_ok hverify _ hmem
  exact usable_of_verifyPrimaryPart (hcheck _ hmem)
    (fun a x hx => lookup_m_of_kept hverify hx _ hmem) hprimary

end Verify

end ProofVerifier
end Ursa
