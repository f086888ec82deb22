import Ursa.Cl.Theorems.Completeness.Issuance
import Ursa.Cl.Theorems.Completeness.PrimaryProof
import Ursa.Cl.Theorems.Hiding.Presentation
import Ursa.Cl.Theorems.Revocation.Presentation
import Ursa.Cl.Theorems.Verification.Strategy

namespace Ursa

open BigNumber UrsaCryptoResult ProofVerifier

variable {C : Curve} {env : Env}

-- One request as both sides make it: the verifier is told `credential`, the rest is the prover's.
-- The hash tables of every call may be walked in another order.
structure Request (C : Curve) where
  credential : VerifiableCredential C
  holding : Holding C
  draws : SubProofDraws C
  env : Env

theorem ProofBuilder.commitNonRevocationPart_eq (builder : ProofBuilder C)
    (part : Option (NonRevocInitProof C)) :
    builder.commitNonRevocationPart part =
      { builder with
        cList := builder.cList ++ part.elim [] (·.cList.asList)
        tauList := builder.tauList ++ part.elim [] (·.tauList.asSlice) } := by
  cases part
  case none => simp [ProofBuilder.commitNonRevocationPart]
  case some part => rfl

theorem Answerable.check_ok {pPubKey : CredentialPrimaryPublicKey} {K : UnitKey pPubKey}
    (h : Answerable K c1 values cs ncs spr) :
    ProofBuilder.checkAddSubProofRequestParamsConsistency values spr cs ncs = .ok () := by
  have hrevealed : spr.revealedAttrs \ values.attrsValues.keys = ∅ := by
    rw [h.keys, Finset.sdiff_eq_empty_iff_subset]
    exact h.revealed_subset
  have hpredicates : spr.predicates.image Predicate.attrName \ values.attrsValues.keys = ∅ := by
    rw [h.keys, Finset.sdiff_eq_empty_iff_subset, Finset.image_subset_iff]
    exact fun p hp => Finset.sdiff_subset <| h.mem_unrevealed hp
  rw [ProofBuilder.checkAddSubProofRequestParamsConsistency, if_neg (not_not.mpr h.keys.symm),
    if_neg (not_not.mpr hrevealed), if_neg (not_not.mpr hpredicates)]

namespace Request

variable (r : Request C)

abbrev pKey : CredentialPrimaryPublicKey :=
  r.credential.pubKey.pKey

abbrev unrevealed : Finset String :=
  ProofBuilder.unrevealedAttrs r.credential.credentialSchema r.credential.nonCredentialSchema
    r.credential.subProofRequest

def addTo (builder : ProofBuilder C) : UrsaCryptoResult Unit × ProofBuilder C :=
  builder.addSubProofRequest r.env r.credential.subProofRequest r.credential.credentialSchema
    r.credential.nonCredentialSchema r.holding.signature r.holding.values r.credential.pubKey
    r.credential.revReg r.holding.witness r.draws

def addToVerifier (verifier : ProofVerifier C) : UrsaCryptoResult (ProofVerifier C) :=
  verifier.addSubProofRequest r.credential.subProofRequest r.credential.credentialSchema
    r.credential.nonCredentialSchema r.credential.pubKey r.credential.revKeyPub r.credential.revReg

-- The non-revocation part of the prover, which is made of four parts that may be missing.
def nonRevocationPart : Option (NonRevocInitProof C) :=
  ProofBuilder.initNonRevocationPart r.holding.signature r.credential.pubKey r.credential.revReg
    r.holding.witness r.draws

def check : UrsaCryptoResult Unit :=
  ProofBuilder.checkAddSubProofRequestParamsConsistency r.holding.values
    r.credential.subProofRequest r.credential.credentialSchema r.credential.nonCredentialSchema

def primaryPart (commonAttributes : HashMap BigNumber) : UrsaCryptoResult PrimaryInitProof :=
  ProofBuilder.initPrimaryProof r.env commonAttributes r.pKey r.holding.signature.pCredential
    r.holding.values r.credential.credentialSchema r.credential.nonCredentialSchema
    r.credential.subProofRequest (ProofBuilder.sharedM2Tilde r.nonRevocationPart) r.draws.eqProof
    r.draws.neProof

-- What the builder keeps for a request.
def initProof (primaryInitProof : PrimaryInitProof) : InitProof C :=
  { primaryInitProof
    nonRevocInitProof := r.nonRevocationPart
    credentialValues := r.holding.values
    subProofRequest := r.credential.subProofRequest
    credentialSchema := r.credential.credentialSchema
    nonCredentialSchema := r.credential.nonCredentialSchema }

-- A non-revocation part, if there is one, is for the registry that the verifier knows.
def Revocable : Prop :=
  ∀ rCred revReg rPubKey witness, r.holding.signature.rCredential = some rCred →
    r.credential.revReg = some revReg → r.credential.pubKey.rKey = some rPubKey →
    r.holding.witness = some witness → ∃ revKeyPub, r.credential.revKeyPub = some revKeyPub ∧
      ProofBuilder.Consistent rCred rPubKey revKeyPub revReg witness

-- A request that the holder can answer, and that leaves the common attributes `names` hidden.
structure Honest (names : List String) (r : Request C) : Prop where
  n : 1 < r.pKey.n.natAbs
  answerable : ∃ K : UnitKey r.pKey, Answerable K r.holding.signature.pCredential r.holding.values
    r.credential.credentialSchema r.credential.nonCredentialSchema r.credential.subProofRequest
  common : ∀ a ∈ names, a ∈ r.unrevealed
  revocable : r.Revocable

variable {r} {names : List String} {draws : String → BnRand largeMVect}

-- What the builder keeps for a request: whatever the challenge is, the answer to it leads the
-- verifier back to `tauList`.
def Answered (names : List String) (draws : String → BnRand largeMVect) (r : Request C)
    (kept : InitProof C × List (List UInt8)) : Prop :=
  ∀ c : ℤ, 0 ≤ c → c < 256 ^ 32 → ∃ subProof,
    ProofBuilder.finalizeSubProof c kept.1 = .ok subProof ∧
    checkSubProofParamsConsistency subProof r.credential = .ok () ∧
    (∀ a ∈ names, subProof.m.lookup a =
      some (c * r.holding.values.exponents a + (draws a).value)) ∧
    ∀ env, Computed env c (subProof, r.credential) kept.2

theorem nonRevocationPart_cases (r : Request C) :
    (∃ rCred revReg rPubKey witness, r.holding.signature.rCredential = some rCred ∧
      r.credential.revReg = some revReg ∧ r.credential.pubKey.rKey = some rPubKey ∧
      r.holding.witness = some witness ∧
      r.nonRevocationPart = some (ProofBuilder.initNonRevocationProof rCred revReg rPubKey witness
        r.draws.cListParams r.draws.tauListParams)) ∨
    (r.holding.signature.rCredential = none ∨ r.credential.revReg = none ∨
      r.credential.pubKey.rKey = none ∨ r.holding.witness = none) ∧ r.nonRevocationPart = none :=
  ProofBuilder.initNonRevocationPart_cases _ _ _ _ _

variable (r) in
-- What the non-revocation part of a request adds to the values that are hashed.
def nonRevocationTau : List (List UInt8) :=
  r.nonRevocationPart.elim [] (·.tauList.asSlice)

-- What a call does, in the order of its steps.
theorem addTo_eq (r : Request C) (builder : ProofBuilder C) : r.addTo builder =
    match r.check, r.primaryPart builder.commonAttributes with
    | .error e, _ => (.error e, builder)
    | .ok _, .error e => (.error e, builder.commitNonRevocationPart r.nonRevocationPart)
    | .ok _, .ok primaryInitProof =>
      (.ok (),
        { builder with
          initProofs := builder.initProofs ++ [r.initProof primaryInitProof]
          cList := builder.cList ++
            (r.nonRevocationPart.elim [] (·.cList.asList) ++ primaryInitProof.asCList)
          tauList := builder.tauList ++
            (r.nonRevocationTau ++ primaryInitProof.asTauList) }) := by
  have hcheck : ProofBuilder.checkAddSubProofRequestParamsConsistency r.holding.values
      r.credential.subProofRequest r.credential.credentialSchema
      r.credential.nonCredentialSchema = r.check := rfl
  have hpart : ProofBuilder.initNonRevocationPart r.holding.signature r.credential.pubKey
      r.credential.revReg r.holding.witness r.draws = r.nonRevocationPart := rfl
  have hprimary : ProofBuilder.initPrimaryProof r.env builder.commonAttributes r.pKey
      r.holding.signature.pCredential r.holding.values r.credential.credentialSchema
      r.credential.nonCredentialSchema r.credential.subProofRequest
      (ProofBuilder.sharedM2Tilde r.nonRevocationPart) r.draws.eqProof r.draws.neProof =
      r.primaryPart builder.commonAttributes := rfl
  rw [addTo, ProofBuilder.addSubProofRequest, hcheck]
  simp only [hpart, ProofBuilder.commitNonRevocationPart_commonAttributes, hprimary]
  cases r.check
  case error => rfl
  case ok =>
    cases r.primaryPart builder.commonAttributes
    case error => rfl
    case ok =>
      simp only [ProofBuilder.commitNonRevocationPart_eq, nonRevocationTau, initProof,
        List.append_assoc]

theorem Revocable.finalize_ok (h : r.Revocable) {c : ℤ} (hc₀ : 0 ≤ c) (hc : c < 256 ^ 32) :
    ∃ nonRevocProof,
      ProofBuilder.finalizeNonRevocationPart r.nonRevocationPart c = .ok nonRevocProof ∧
      ∀ primaryProof, verifyNonRevocationPart c ⟨primaryProof, nonRevocProof⟩ r.credential =
        .ok r.nonRevocationTau := by
  rw [nonRevocationTau]
  obtain ⟨rCred, revReg, rPubKey, witness, hrCred, hrevReg, hrPubKey, hwitness, hpart⟩ | ⟨-, hpart⟩ :=
    r.nonRevocationPart_cases
  case inr =>
    rw [hpart]
    exact ⟨none, rfl, fun _ => rfl⟩
  case inl =>
    rw [hpart]
    obtain ⟨revKeyPub, hrevKeyPub, hconsistent⟩ :=
      h rCred revReg rPubKey witness hrCred hrevReg hrPubKey hwitness
    have hchallenge : c.natAbs < 256 ^ 32 := by omega
    obtain ⟨proof, hproof, hverify⟩ := ProofBuilder.verify_finalize hconsistent
      (bignumToGroupElement_eq_natAbs hchallenge) r.draws.cListParams r.draws.tauListParams
    refine ⟨some proof, ?_, fun primaryProof => ?_⟩
    · rw [ProofBuilder.finalizeNonRevocationPart, hproof]
      rfl
    · simp only [verifyNonRevocationPart, hrPubKey, hrevReg, hrevKeyPub, hverify, ok_bind,
        Option.elim]
      rfl

-- The builder after a request that it could answer.
theorem Honest.addTo_ok (h : r.Honest names) {builder : ProofBuilder C}
    (hcommon : builder.commonAttributes = ProofBuilder.commonBlindings names draws) :
    ∃ kept cList, r.addTo builder = (.ok (),
        { builder with
          initProofs := builder.initProofs ++ [kept.1]
          cList := builder.cList ++ cList
          tauList := builder.tauList ++ kept.2 }) ∧ r.Answered names draws kept := by
  obtain ⟨K, hanswerable⟩ := h.answerable
  have hcommon₀ : ∀ a x, builder.commonAttributes.lookup a = some x → (0 : ℤ) ≤ x := by
    intro a x hx
    rw [hcommon, ProofBuilder.lookup_commonBlindings] at hx
    split at hx
    case isTrue => exact Option.some.inj hx ▸ (draws a).value_nonneg
    case isFalse => cases hx
  obtain ⟨primaryInitProof, hprimary, hmTilde, hcomplete⟩ :=
    ProofBuilder.primaryProof_complete h.n K hanswerable r.env hcommon₀
      (ProofBuilder.sharedM2Tilde r.nonRevocationPart) r.draws.eqProof r.draws.neProof
  refine ⟨(r.initProof primaryInitProof, r.nonRevocationTau ++ primaryInitProof.asTauList),
    r.nonRevocationPart.elim [] (·.cList.asList) ++ primaryInitProof.asCList, ?_, fun c hc₀ hc => ?_⟩
  case refine_1 =>
    have hcheck : r.check = .ok () := hanswerable.check_ok
    have hpart : r.primaryPart builder.commonAttributes = .ok primaryInitProof := hprimary
    rw [addTo_eq, hcheck, hpart]
  case refine_2 =>
    obtain ⟨nonRevocProof, hnonRevoc, hverifyNonRevoc⟩ := h.revocable.finalize_ok hc₀ hc
    obtain ⟨primaryProof, hfinalize, hverifies⟩ := hcomplete c hc₀
    refine ⟨⟨primaryProof, nonRevocProof⟩, ?_, ?_, fun a ha => ?_, fun env => ?_⟩
    · simp only [ProofBuilder.finalizeSubProof, initProof, hnonRevoc, hfinalize, ok_bind]
      rfl
    · exact checkSubProofParamsConsistency_ok_iff.mpr ⟨hverifies.revealed, hverifies.predicates⟩
    · have hunrevealed := h.common a ha
      have hlookup : (getMtilde r.env r.unrevealed builder.commonAttributes
          r.draws.eqProof.mTilde).lookup a =
          some ((builder.commonAttributes.lookup a).getD (r.draws.eqProof.mTilde a).value) :=
        ProofBuilder.lookup_getMtilde hunrevealed
      rw [← hmTilde, hcommon, ProofBuilder.lookup_commonBlindings, if_pos ha] at hlookup
      rw [SubProof.m, hverifies.m a hunrevealed, exponents_eq hlookup]
      rfl
    · obtain ⟨taus, htaus, hbytes⟩ := hverifies.verify env
      exact ⟨_, taus, hverifyNonRevoc primaryProof, htaus, by rw [hbytes]⟩

-- The answers to all requests that the builder keeps.
theorem exists_subProofs {rs : List (Request C)} {kept : List (InitProof C × List (List UInt8))}
    (h : List.Forall₂ (Answered names draws) rs kept) {x : String → ℤ}
    (hshared : ∀ a ∈ names, ∀ r ∈ rs, r.holding.values.exponents a = x a) {c : ℤ} (hc₀ : 0 ≤ c)
    (hc : c < 256 ^ 32) :
    ∃ subProofs, (kept.map Prod.fst).mapM (ProofBuilder.finalizeSubProof c) = .ok subProofs ∧
      subProofs.length = rs.length ∧
      (∀ item ∈ subProofs.zip (rs.map (·.credential)),
        checkSubProofParamsConsistency item.1 item.2 = .ok () ∧
        ∀ a ∈ names, item.1.m.lookup a = some (c * x a + (draws a).value)) ∧
      ∀ env, List.Forall₂ (Computed env c) (subProofs.zip (rs.map (·.credential)))
        (kept.map Prod.snd) := by
  induction h
  case nil => exact ⟨[], rfl, rfl, by simp, fun _ => .nil⟩
  case cons r kept₁ rs kept hr _ hi =>
    obtain ⟨subProof, hfinalize, hcheck, hm, hcomputed⟩ := hr c hc₀ hc
    obtain ⟨subProofs, hsubProofs, hlength, hitems, hcomputeds⟩ :=
      hi fun a ha r' hr' => hshared a ha r' <| .tail _ hr'
    refine ⟨subProof :: subProofs, ?_, congrArg _ hlength, ?_, fun env => ?_⟩
    · rw [List.map_cons, List.mapM_cons, hfinalize, ok_bind, hsubProofs, ok_bind]
      rfl
    · rw [List.map_cons, List.zip_cons_cons, List.forall_mem_cons]
      exact ⟨⟨hcheck, fun a ha => hshared a ha r (.head _) ▸ hm a ha⟩, hitems⟩
    · exact .cons (hcomputed env) (hcomputeds env)

end Request

namespace ProofBuilder

variable {names : List String} {draws : String → BnRand largeMVect} {rs : List (Request C)}

-- The builder after `names` were added as common attributes.
def withCommonAttributes (C : Curve) (names : List String) (draws : String → BnRand largeMVect) :
    ProofBuilder C :=
  names.foldl (fun builder a => builder.addCommonAttribute a (draws a)) (new C)

-- What a builder keeps of the requests `rs`, and nothing else.
structure Answers (names : List String) (draws : String → BnRand largeMVect)
    (rs : List (Request C)) (builder : ProofBuilder C) : Prop where
  commonAttributes : builder.commonAttributes = commonBlindings names draws
  kept : ∃ kept, builder.initProofs = kept.map Prod.fst ∧
    builder.tauList = kept.flatMap Prod.snd ∧
    List.Forall₂ (Request.Answered names draws) rs kept

theorem withCommonAttributes_eq : withCommonAttributes C names draws =
    { new C with commonAttributes := commonBlindings names draws } :=
  foldl_addCommonAttribute names draws

theorem Answers.init : Answers names draws [] (withCommonAttributes C names draws) where
  commonAttributes := by rw [withCommonAttributes_eq]
  kept := ⟨[], by rw [withCommonAttributes_eq]; rfl, by rw [withCommonAttributes_eq]; rfl, .nil⟩

theorem Answers.addTo {builder : ProofBuilder C} (h : Answers names draws rs builder)
    {r : Request C} (hr : r.Honest names) : ∃ builder',
      r.addTo builder = (.ok (), builder') ∧ Answers names draws (rs ++ [r]) builder' := by
  obtain ⟨kept, hinitProofs, htauList, hkept⟩ := h.kept
  obtain ⟨kept₁, cList, hok, hkept₁⟩ := hr.addTo_ok h.commonAttributes
  refine ⟨_, hok, h.commonAttributes, kept ++ [kept₁], ?_, ?_, ?_⟩
  · rw [hinitProofs, List.map_append, List.map_singleton]
  · rw [htauList, List.flatMap_append, List.flatMap_singleton]
  · exact List.rel_append hkept (.cons hkept₁ .nil)

theorem Answers.finalize {builder : ProofBuilder C} (h : Answers names draws rs builder)
    {x : String → ℤ} (hshared : ∀ a ∈ names, ∀ r ∈ rs, r.holding.values.exponents a = x a)
    {verifier : ProofVerifier C} (hcredentials : verifier.credentials = rs.map (·.credential))
    (hcommon : verifier.commonAttributes = HashMap.tabulate names fun _ => none)
    {env env' : Env} (henv : env.sha256 = env'.sha256) (nonce : Nonce) :
    ∃ proof, builder.finalize env nonce = .ok proof ∧ verifier.Accepts env' proof nonce := by
  obtain ⟨kept, hinitProofs, htauList, hkept⟩ := h.kept
  let c := getHashAsInt env (builder.tauList ++ builder.cList ++ [nonce.toBytes])
  obtain ⟨subProofs, hsubProofs, hlength, hitems, hcomputed⟩ := Request.exists_subProofs hkept
    hshared (getHashAsInt_nonneg env _ : 0 ≤ c) (getHashAsInt_lt env _)
  refine ⟨⟨subProofs, { cHash := c, cList := builder.cList }⟩, ?_, ?_⟩
  case refine_1 =>
    rw [ProofBuilder.finalize, hinitProofs]
    simp only [hsubProofs, ok_bind, c]
    rfl
  case refine_2 =>
    have hm : ∀ item ∈ subProofs.zip verifier.credentials, ∀ a ∈ verifier.commonAttributes,
        item.1.m.lookup a = some (c * x a + (draws a).value) := by
      intro item hitem a ha
      rw [hcommon, ← Finmap.mem_keys, HashMap.keys_tabulate, List.mem_toFinset] at ha
      exact (hitems item <| hcredentials ▸ hitem).2 a ha
    have hagrees : Agrees (fun a => c * x a + (draws a).value) verifier.commonAttributes := by
      intro a y hy
      rw [hcommon, HashMap.lookup_tabulate] at hy
      split at hy <;> cases hy
    have hcomputed := hcredentials.symm ▸ hcomputed env'
    obtain ⟨common', hverify⟩ := verifySubProofs_ok hm hagrees hcomputed
    refine accepts_iff.mpr ⟨?_, fun item hitem => (hitems item <| hcredentials ▸ hitem).1, _, common',
      hverify, ?_⟩
    · rw [hcredentials, List.length_map, hlength]
    · rw [← getHashAsInt_congr henv]
      show getHashAsInt env ((kept.map Prod.snd).flatten ++ builder.cList ++ [nonce.toBytes]) = c
      rw [← List.flatMap_def, ← htauList]

-- A caller that adds requests and goes on after an error: the requests that were accepted, and
-- the builder after the last call.
def addRequests : List (Request C) → ProofBuilder C → List (Request C) × ProofBuilder C
  | [], builder => ([], builder)
  | r :: rs, builder =>
    match r.addTo builder with
    | (.ok _, builder)    => (addRequests rs builder).map (r :: ·) id
    | (.error _, builder) => addRequests rs builder

theorem Answers.addRequests_honest {builder : ProofBuilder C} {done : List (Request C)}
    (h : Answers names draws done builder) (hrs : ∀ r ∈ rs, r.Honest names) :
    ∃ builder', addRequests rs builder = (rs, builder') ∧
      Answers names draws (done ++ rs) builder' := by
  induction rs generalizing done builder
  case nil => exact ⟨builder, rfl, by rwa [List.append_nil]⟩
  case cons r rs hi =>
    obtain ⟨builder₁, hok, h₁⟩ := h.addTo (hrs r <| .head _)
    obtain ⟨builder', hok', h'⟩ := hi h₁ fun r' hr' => hrs r' <| .tail _ hr'
    rw [List.append_assoc, List.singleton_append] at h'
    exact ⟨builder', by rw [addRequests, hok]; simp only [hok']; rfl, h'⟩

end ProofBuilder

namespace ProofVerifier

variable {names : List String} {rs : List (Request C)}

def withCommonAttributes (C : Curve) (names : List String) : ProofVerifier C :=
  names.foldl addCommonAttribute (new C)

def addRequests (verifier : ProofVerifier C) (rs : List (Request C)) :
    UrsaCryptoResult (ProofVerifier C) :=
  rs.foldlM (fun verifier r => r.addToVerifier verifier) verifier

theorem withCommonAttributes_eq : withCommonAttributes C names =
    { credentials := []
      commonAttributes := HashMap.tabulate names fun _ => none } := by
  suffices h : ∀ verifier : ProofVerifier C, names.foldl addCommonAttribute verifier =
      { verifier with
        commonAttributes := names.foldl (fun (m : HashMap (Option BigNumber)) a =>
          m.insert a none) verifier.commonAttributes } from h _
  induction names
  case nil => exact fun _ => rfl
  case cons a names hi => exact fun verifier => hi _

theorem addToVerifier_honest {r : Request C} (h : r.Honest names) (verifier : ProofVerifier C) :
    r.addToVerifier verifier =
      .ok { verifier with credentials := verifier.credentials ++ [r.credential] } := by
  obtain ⟨K, hanswerable⟩ := h.answerable
  have hrevealed : r.credential.subProofRequest.revealedAttrs \
      r.credential.credentialSchema.attrs = ∅ :=
    Finset.sdiff_eq_empty_iff_subset.mpr hanswerable.revealed
  have hpredicates : r.credential.subProofRequest.predicates.image Predicate.attrName \
      r.credential.credentialSchema.attrs = ∅ := by
    rw [Finset.sdiff_eq_empty_iff_subset, Finset.image_subset_iff]
    exact fun p hp => Finset.sdiff_subset (hanswerable.predicates p hp).1
  rw [Request.addToVerifier, addSubProofRequest, checkAddSubProofRequestParamsConsistency,
    if_neg (not_not.mpr hrevealed), if_neg (not_not.mpr hpredicates)]
  rfl

theorem addRequests_honest (h : ∀ r ∈ rs, r.Honest names) (verifier : ProofVerifier C) :
    verifier.addRequests rs =
      .ok { verifier with credentials := verifier.credentials ++ rs.map (·.credential) } := by
  induction rs generalizing verifier
  case nil =>
    rw [List.map_nil, List.append_nil]
    rfl
  case cons r rs hi =>
    have hrest := hi (fun r' hr' => h r' <| .tail _ hr')
      { verifier with credentials := verifier.credentials ++ [r.credential] }
    rw [addRequests, List.foldlM_cons, addToVerifier_honest (h r <| .head _), ok_bind]
    rw [addRequests] at hrest
    rw [hrest, List.append_assoc, List.map_cons, List.singleton_append]

end ProofVerifier

-- A verifier that is told the requests of a builder accepts what the builder makes of them.
theorem ProofBuilder.Answers.verify_ok {names : List String} {rs : List (Request C)}
    {draws : String → BnRand largeMVect} {builder : ProofBuilder C}
    (h : Answers names draws rs builder) (hhonest : ∀ r ∈ rs, r.Honest names)
    (hshared : ∀ a ∈ names, ∀ r ∈ rs, ∀ r' ∈ rs,
      r.holding.values.exponents a = r'.holding.values.exponents a)
    {env env' : Env} (henv : env.sha256 = env'.sha256) (nonce : Nonce) :
    ∃ verifier proof,
      (ProofVerifier.withCommonAttributes C names).addRequests rs = .ok verifier ∧
      builder.finalize env nonce = .ok proof ∧
      (verifier.verify env' proof nonce).1 = .ok true := by
  let verifier : ProofVerifier C :=
    { credentials := rs.map (·.credential)
      commonAttributes := HashMap.tabulate names fun _ => none }
  have hverifier : (ProofVerifier.withCommonAttributes C names).addRequests rs = .ok verifier := by
    rw [ProofVerifier.addRequests_honest hhonest, ProofVerifier.withCommonAttributes_eq]
    rfl
  have hcredentials : verifier.credentials = rs.map (·.credential) := rfl
  obtain ⟨x, hx⟩ : ∃ x : String → ℤ, ∀ a ∈ names, ∀ r ∈ rs,
      r.holding.values.exponents a = x a := by
    cases rs
    case nil => exact ⟨fun _ => 0, by simp⟩
    case cons r rs =>
      exact ⟨r.holding.values.exponents, fun a ha r' hr' => hshared a ha r' hr' r (.head _)⟩
  obtain ⟨proof, hproof, haccepts⟩ := h.finalize hx hcredentials rfl henv nonce
  exact ⟨verifier, proof, hverifier, hproof, haccepts⟩

-- Prover and verifier may walk their hash tables in different orders; the hash is the same.
theorem presentation_complete {names : List String} {rs : List (Request C)}
    (hhonest : ∀ r ∈ rs, r.Honest names)
    (hshared : ∀ a ∈ names, ∀ r ∈ rs, ∀ r' ∈ rs,
      r.holding.values.exponents a = r'.holding.values.exponents a)
    {env env' : Env} (henv : env.sha256 = env'.sha256)
    (draws : String → BnRand largeMVect) (nonce : Nonce) :
    ∃ builder verifier proof,
      (ProofBuilder.withCommonAttributes C names draws).addRequests rs = (rs, builder) ∧
      (ProofVerifier.withCommonAttributes C names).addRequests rs = .ok verifier ∧
      builder.finalize env nonce = .ok proof ∧
      (verifier.verify env' proof nonce).1 = .ok true := by
  have hinit : ProofBuilder.Answers names draws []
      (ProofBuilder.withCommonAttributes C names draws) := .init
  obtain ⟨builder, hbuilder, hanswers⟩ := hinit.addRequests_honest hhonest
  rw [List.nil_append] at hanswers
  obtain ⟨verifier, proof, haccepts⟩ := hanswers.verify_ok hhonest hshared henv nonce
  exact ⟨builder, verifier, proof, hbuilder, haccepts⟩

section Mod77

open ProofVerifier (curveMod11 mod11)

def identityUnitKey : UnitKey identityPubKey.pKey where
  s := ZMod.unitOfCoprime 4 (by decide)
  z := ZMod.unitOfCoprime 60 (by decide)
  rctxt := ZMod.unitOfCoprime 15 (by decide)
  r _ := ZMod.unitOfCoprime 23 (by decide)
  s_eq := rfl
  z_eq := rfl
  rctxt_eq := rfl
  r_eq k x h := by
    have hbase : ∀ k ∈ identityPubKey.pKey.r.keys, exponents identityPubKey.pKey.r k = 23 := by
      decide +kernel
    have hk := hbase k <| Finmap.mem_keys.mpr <| Finmap.mem_of_lookup_eq_some h
    rw [exponents_eq h] at hk
    rw [hk]
    rfl

-- The holder of the credential reveals a name, and hides an age and a link secret.
def identityRequest (signature : PrimaryCredentialSignature) (age name : BigNumber)
    (predicates : BTreeSet Predicate) : Request curveMod11 where
  credential :=
    { pubKey := identityPubKey
      subProofRequest := { revealedAttrs := {"name"}, predicates }
      credentialSchema := ⟨{"age", "name"}⟩
      nonCredentialSchema := ⟨{"link"}⟩
      revKeyPub := none
      revReg := none }
  holding :=
    { signature := { pCredential := signature, rCredential := none }
      values :=
        ⟨(((∅ : BTreeMap CredentialValue).insert "age" (.known age)).insert "link"
          (.hidden 5)).insert "name" (.known name)⟩
      witness := none }
  draws :=
    { eqProof :=
        { m2Tilde := .zero, r := .zero, eTilde := .zero, vTilde := .zero, mTilde _ := .zero }
      neProof _ :=
        { r _ := .zero
          rDelta := .zero
          uTilde _ := .zero
          rTilde _ := .zero
          rTildeDelta := .zero
          alphaTilde := .zero }
      cListParams :=
        { rho := 0
          r := 0
          rPrime := 0
          rPrimePrime := 0
          rPrimePrimePrime := 0
          o := 0
          oPrime := 0 }
      tauListParams := .fromList [] }
  env := Presentation.zeroEnv

def adultRequest : Request curveMod11 :=
  identityRequest { m2 := 1, a := 23, e := primeDraw.value, v := 1 } 20 6
    {⟨"age", .GE, 18⟩, ⟨"age", .LT, 30⟩}

def seniorRequest : Request curveMod11 :=
  identityRequest { m2 := 3, a := 25, e := primeDraw.value, v := 2 } 35 8
    {⟨"age", .GT, 30⟩, ⟨"age", .LE, 40⟩}

theorem adultRequest_answerable : Answerable identityUnitKey
    adultRequest.holding.signature.pCredential adultRequest.holding.values
    adultRequest.credential.credentialSchema adultRequest.credential.nonCredentialSchema
    adultRequest.credential.subProofRequest where
  signed := ⟨by decide +kernel, 67, by decide +kernel, by decide +kernel⟩
  bases := by decide +kernel
  keys := by decide +kernel
  revealed := by decide +kernel
  predicates := by decide +kernel

theorem seniorRequest_answerable : Answerable identityUnitKey
    seniorRequest.holding.signature.pCredential seniorRequest.holding.values
    seniorRequest.credential.credentialSchema seniorRequest.credential.nonCredentialSchema
    seniorRequest.credential.subProofRequest where
  signed := ⟨by decide +kernel, 16, by decide +kernel, by decide +kernel⟩
  bases := by decide +kernel
  keys := by decide +kernel
  revealed := by decide +kernel
  predicates := by decide +kernel

theorem identityRequest_honest {signature : PrimaryCredentialSignature} {age name : ℤ}
    {predicates : BTreeSet Predicate} {K : UnitKey identityPubKey.pKey}
    (h : Answerable K signature (identityRequest signature age name predicates).holding.values
      ⟨{"age", "name"}⟩ ⟨{"link"}⟩ ⟨{"name"}, predicates⟩) :
    (identityRequest signature age name predicates).Honest ["link"] where
  n := show 1 < Int.natAbs identityPubKey.pKey.n by decide
  answerable := ⟨K, h⟩
  common := by
    have hlink : "link" ∈ ProofBuilder.unrevealedAttrs ⟨{"age", "name"}⟩ ⟨{"link"}⟩
        ⟨{"name"}, predicates⟩ := by
      simp [ProofBuilder.unrevealedAttrs]
    exact List.forall_mem_singleton.mpr hlink
  revocable _ _ _ _ hrCred := by cases hrCred

theorem identityRequests_honest : ∀ r ∈ [adultRequest, seniorRequest], r.Honest ["link"] := by
  rw [List.forall_mem_cons, List.forall_mem_singleton]
  exact ⟨identityRequest_honest adultRequest_answerable,
    identityRequest_honest seniorRequest_answerable⟩

theorem identityRequests_shared : ∀ a ∈ ["link"], ∀ r ∈ [adultRequest, seniorRequest],
    ∀ r' ∈ [adultRequest, seniorRequest],
      r.holding.values.exponents a = r'.holding.values.exponents a := by
  have hlink : ∀ r ∈ [adultRequest, seniorRequest], r.holding.values.exponents "link" = 5 := by
    decide +kernel
  intro a ha r hr r' hr'
  obtain rfl := List.mem_singleton.mp ha
  rw [hlink r hr, hlink r' hr']

-- Every table is walked in the opposite direction.
def reversed (env : Env) : Env where
  sha256 := env.sha256
  sha256_length := env.sha256_length
  hashOrder s := (env.hashOrder s).reverse
  mem_hashOrder s a := by rw [List.mem_reverse, env.mem_hashOrder]
  nodup_hashOrder s := List.nodup_reverse.mpr <| env.nodup_hashOrder s

theorem presentation_complete_identity :
    let draws : String → BnRand largeMVect := fun _ => .zero
    let env : Env := .sorted (fun _ => List.replicate 32 1) fun _ => List.length_replicate
    ∃ builder verifier proof,
      (ProofBuilder.withCommonAttributes curveMod11 ["link"] draws).addRequests
        [adultRequest, seniorRequest] = ([adultRequest, seniorRequest], builder) ∧
      (ProofVerifier.withCommonAttributes curveMod11 ["link"]).addRequests
        [adultRequest, seniorRequest] = .ok verifier ∧
      builder.finalize env 5 = .ok proof ∧ (verifier.verify (reversed env) proof 5).1 = .ok true := by
  intro draws env
  have henv : env.sha256 = (reversed env).sha256 := rfl
  exact presentation_complete identityRequests_honest identityRequests_shared henv draws 5

end Mod77

end Ursa
