import Ursa.Cl.Theorems.Verification.Context

namespace Ursa

open BigNumber UrsaCryptoResult

namespace ProofVerifier

variable {C : Curve} {env : Env} {self : ProofVerifier C} {cHash : BigNumber}
variable {common : HashMap (Option BigNumber)} {m : HashMap BigNumber}

-- The results of one call after another.
def verifyAll (env : Env) :
    ProofVerifier C → List (Proof C × Nonce) → List (UrsaCryptoResult Bool)
  | _, [] => []
  | self, (proof, nonce) :: calls =>
    (self.verify env proof nonce).1 :: verifyAll env (self.verify env proof nonce).2 calls

-- Every call returns what it returns on the verifier as it was built.
def Repeatable (self : ProofVerifier C) (env : Env) : Prop :=
  ∀ calls, self.verifyAll env calls = calls.map fun call => (self.verify env call.1 call.2).1

section Unchanged

theorem checkCommonAttributes_empty (m : HashMap BigNumber) :
    checkCommonAttributes m (env.hashOrder (∅ : HashMap (Option BigNumber)).keys) ∅ =
      (.ok (), ∅) := by
  have hnil : env.hashOrder (∅ : HashMap (Option BigNumber)).keys = [] := by
    rw [List.eq_nil_iff_forall_not_mem]
    intro a ha
    rw [env.mem_hashOrder, Finmap.keys_empty] at ha
    cases ha
  rw [hnil]
  rfl

theorem verifySubProof_empty (proofItem : SubProof C) (credential : VerifiableCredential C) :
    (verifySubProof env cHash proofItem credential ∅).2 = ∅ := by
  unfold verifySubProof
  rw [checkCommonAttributes_empty]
  split
  case h_1 => rfl
  case h_2 => dsimp only; split <;> rfl

theorem verifySubProofs_empty (items : List (SubProof C × VerifiableCredential C)) :
    (verifySubProofs env cHash items ∅).2 = ∅ := by
  induction items
  case nil => rfl
  case cons item items hi =>
    have hitem : (verifySubProof env cHash item.1 item.2 ∅).2 = ∅ := verifySubProof_empty ..
    unfold verifySubProofs
    generalize verifySubProof env cHash item.1 item.2 ∅ = run at hitem
    obtain ⟨result, common⟩ := run
    obtain rfl : common = ∅ := hitem
    cases result
    case error => rfl
    case ok =>
      dsimp only
      split
      case h_1 _ _ _ h => exact (congrArg Prod.snd h).symm.trans hi
      case h_2 _ _ _ h => exact (congrArg Prod.snd h).symm.trans hi

theorem verify_unchanged (h : self.commonAttributes = ∅ ∨ self.credentials = [])
    (proof : Proof C) (nonce : Nonce) : (self.verify env proof nonce).2 = self := by
  have hsame : (verifySubProofs env proof.aggregatedProof.cHash
      (proof.proofs.zip self.credentials) self.commonAttributes).2 = self.commonAttributes := by
    obtain hempty | hnil := h
    case inl => rw [hempty, verifySubProofs_empty]
    case inr => rw [hnil, List.zip_nil_right]; rfl
  unfold verify
  split
  case h_1 => rfl
  case h_2 =>
    split
    case h_1 h' =>
      obtain rfl := (congrArg Prod.snd h').symm.trans hsame
      rfl
    case h_2 h' =>
      obtain rfl := (congrArg Prod.snd h').symm.trans hsame
      rfl

theorem repeatable_of_unchanged
    (h : ∀ (proof : Proof C) nonce, (self.verify env proof nonce).2 = self) : self.Repeatable env := by
  intro calls
  induction calls
  case nil => rfl
  case cons call calls hi => rw [verifyAll, h, hi, List.map_cons]

end Unchanged

section Probe

def constantResponses (names : HashSet String) (x : BigNumber) : HashMap BigNumber :=
  .tabulate (BTreeSet.iter names) fun _ => x

theorem lookup_constantResponses (ha : a ∈ env.hashOrder names) (x : BigNumber) :
    (constantResponses names x).lookup a = some x := by
  rw [constantResponses, HashMap.lookup_tabulate,
    if_pos <| BTreeSet.mem_iter.mpr <| (env.mem_hashOrder _ _).mp ha]

-- A proof with the response `x` for the common attributes `names`, whose first sub proof then
-- makes OpenSSL fail: 0 has no inverse.
def probe (credentials : List (VerifiableCredential C)) (names : HashSet String)
    (x : BigNumber) : Proof C where
  proofs := credentials.map fun cred =>
    { primaryProof :=
        { eqProof :=
            { revealedAttrs :=
                HashMap.tabulate (BTreeSet.iter cred.subProofRequest.revealedAttrs) fun _ => 0
              aPrime := 0
              e := -1
              v := 0
              m := constantResponses names x
              m2 := 0 }
          neProofs := (BTreeSet.iter cred.subProofRequest.predicates).map (forgedNeProof ∅ 0 cred) }
      nonRevocProof := none }
  aggregatedProof := { cHash := 0, cList := [] }

theorem probe_consistent (credentials : List (VerifiableCredential C)) (names : HashSet String)
    (x : BigNumber) :
    checkVerifyParamsConsistency credentials (probe credentials names x) = .ok () := by
  rw [checkVerifyParamsConsistency_ok_iff]
  refine ⟨List.length_map _, fun item hitem => ?_⟩
  rw [probe, Strategy.zip_respond, List.mem_map] at hitem
  obtain ⟨cred, -, rfl⟩ := hitem
  rw [checkSubProofParamsConsistency_ok_iff]
  constructor
  · ext a
    simp [HashMap.keys_tabulate]
  · ext predicate
    simp [forgedNeProof, Function.comp_def]

theorem inverse_zero (n : BigNumber) : inverse 0 n = .error opensslError := by
  rw [inverse, Int.gcd_zero_left, if_neg fun h => h.1.ne' h.2]

theorem verify_probe {names : HashSet String} (hne : self.credentials ≠ [])
    (h : checkCommonAttributes (constantResponses names x)
      (env.hashOrder self.commonAttributes.keys) self.commonAttributes = (result, common'))
    (nonce : Nonce) : self.verify env (probe self.credentials names x) nonce =
      (result >>= fun _ => .error opensslError, { self with commonAttributes := common' }) := by
  obtain ⟨cred, creds, hcreds⟩ := List.exists_cons_of_ne_nil hne
  have hprimary (P : CredentialPrimaryPublicKey) (m m2 unrevealed) :
      calcTeq P env 0 (-1) 0 m m2 unrevealed = .error opensslError := by
    have hpower : modExp 0 (-1) P.n = .error opensslError := by
      rw [modExp, if_pos (by decide), inverse_zero]
      rfl
    rw [calcTeq, hpower]
    rfl
  unfold verify
  rw [probe_consistent, hcreds]
  unfold probe
  rw [List.map_cons, List.zip_cons_cons, verifySubProofs, verifySubProof]
  dsimp only [verifyNonRevocationPart]
  rw [h]
  cases result
  case error => rfl
  case ok =>
    dsimp only [verifyPrimaryProof, verifyEquality]
    rw [hprimary]
    rfl

end Probe
-- The message of `verify` for two responses that differ.
theorem checkCommonAttributes_mismatch (hx : common.lookup a = some (some x))
    (hm : m.lookup a = some y) (hne : x ≠ y) (l : List String) :
    checkCommonAttributes m (a :: l) common = (.error <| .err .proofRejected
      s!"Blinded value for common attribute '{a}' different across sub proofs", common) := by
  rw [checkCommonAttributes, checkCommonAttribute, hm, hx]
  dsimp only
  rw [if_pos hne]

-- The first proof leaves its responses behind.
theorem Built.checkCommonAttributes_ok (h : Built self) (env : Env) (x : BigNumber) :
    ∃ common', checkCommonAttributes (constantResponses self.commonAttributes.keys x)
        (env.hashOrder self.commonAttributes.keys) self.commonAttributes = (.ok (), common') ∧
      common'.keys = self.commonAttributes.keys ∧
      ∀ a ∈ env.hashOrder self.commonAttributes.keys, common'.lookup a = some (some x) := by
  have hm : ∀ a ∈ env.hashOrder self.commonAttributes.keys,
      (constantResponses self.commonAttributes.keys x).lookup a = some x :=
    fun a ha => lookup_constantResponses ha x
  have hagrees : Agrees (fun _ => x) self.commonAttributes :=
    fun a y hy => absurd hy <| h.lookup_ne a y
  obtain ⟨common', hok, -⟩ := ProofVerifier.checkCommonAttributes_ok hm hagrees
  have hstep := checkCommonAttributes_eq_ok hok
  refine ⟨common', hok, ?_, fun a ha => ?_⟩
  case refine_1 =>
    ext a
    simp only [Finmap.mem_keys, hstep.mem_iff]
  case refine_2 =>
    obtain ⟨y, hy, hkept⟩ := hstep.response a ha <|
      Finmap.mem_keys.mp <| (env.mem_hashOrder _ _).mp ha
    rw [hkept, ← hy, hm a ha]

-- The values that one proof leaves behind are held against the next one.
theorem repeatable_iff (h : Built self) :
    self.Repeatable env ↔ self.commonAttributes = ∅ ∨ self.credentials = [] := by
  constructor
  case mpr => exact fun hun => repeatable_of_unchanged <| verify_unchanged hun
  case mp =>
    intro hrepeatable
    by_contra hcon
    push Not at hcon
    obtain ⟨hne, hcreds⟩ := hcon
    obtain ⟨a, l, horder⟩ : ∃ a l, env.hashOrder self.commonAttributes.keys = a :: l := by
      refine List.exists_cons_of_ne_nil fun hnil => hne <| Finmap.ext_lookup fun a => ?_
      have hnot : a ∉ self.commonAttributes := by
        rw [← Finmap.mem_keys, ← env.mem_hashOrder, hnil]
        exact List.not_mem_nil
      rw [Finmap.lookup_eq_none.mpr hnot, Finmap.lookup_empty]
    obtain ⟨common₀, h₀, hkeys, hkept⟩ := h.checkCommonAttributes_ok env 0
    obtain ⟨common₁, h₁, -⟩ := h.checkCommonAttributes_ok env 1
    let first := probe self.credentials self.commonAttributes.keys 0
    let second := probe self.credentials self.commonAttributes.keys 1
    have hfirst : self.verify env first 0 = (.error opensslError, ⟨self.credentials, common₀⟩) :=
      verify_probe hcreds h₀ 0
    have hsecond : (self.verify env second 0).1 = .error opensslError :=
      congrArg Prod.fst <| verify_probe hcreds h₁ 0
    have hagain : checkCommonAttributes (constantResponses self.commonAttributes.keys 1)
        (env.hashOrder common₀.keys) common₀ = (.error <| .err .proofRejected
          s!"Blinded value for common attribute '{a}' different across sub proofs", common₀) := by
      have ha : a ∈ env.hashOrder self.commonAttributes.keys := horder ▸ .head _
      rw [hkeys, horder]
      exact checkCommonAttributes_mismatch (hkept a ha) (lookup_constantResponses ha 1) zero_ne_one l
    have hrun := hrepeatable [(first, 0), (second, 0)]
    simp only [verifyAll, hfirst, List.map_cons, List.map_nil, hsecond] at hrun
    let self' : ProofVerifier C := ⟨self.credentials, common₀⟩
    have hcreds' : self'.credentials ≠ [] := hcreds
    rw [verify_probe hcreds' hagain 0] at hrun
    cases hrun

section Mod77

def linkedCredential : VerifiableCredential curveMod11 where
  pubKey := { pKey := pPubKeyMod77, rKey := none }
  subProofRequest := ⟨∅, ∅⟩
  credentialSchema := ⟨{"age"}⟩
  nonCredentialSchema := ⟨∅⟩
  revKeyPub := none
  revReg := none

def linkedVerifier : ProofVerifier curveMod11 where
  credentials := [linkedCredential]
  commonAttributes := (∅ : HashMap (Option BigNumber)).insert "age" none

theorem linkedVerifier_built : Built linkedVerifier := by
  have hcheck : checkAddSubProofRequestParamsConsistency linkedCredential.subProofRequest
      linkedCredential.credentialSchema = .ok () := by
    decide +kernel
  have hok : ((new curveMod11).addCommonAttribute "age").addSubProofRequest
      linkedCredential.subProofRequest linkedCredential.credentialSchema
      linkedCredential.nonCredentialSchema linkedCredential.pubKey linkedCredential.revKeyPub
      linkedCredential.revReg = .ok linkedVerifier := by
    rw [addSubProofRequest, hcheck]
    rfl
  exact .addSubProofRequest (.addCommonAttribute .new) hok

-- The holder of a credential, who presents it with the same draws again.
def linkedBuilder : ProofBuilder curveMod11 :=
  (((ProofBuilder.new curveMod11).addCommonAttribute "age" .zero).addSubProofRequest suffixEnv
    linkedCredential.subProofRequest linkedCredential.credentialSchema
    linkedCredential.nonCredentialSchema ⟨mixedSignature.pCredential, none⟩
    ⟨(∅ : BTreeMap CredentialValue).insert "age" (.known 20)⟩ linkedCredential.pubKey
    none none mixedDraws).2

-- What the verifier answers to two proofs of the holder, and to the second one alone.
def verifyTwice (builder : ProofBuilder C) (self : ProofVerifier C) (env : Env)
    (nonce nonce' : Nonce) :
    UrsaCryptoResult (List (UrsaCryptoResult Bool) × UrsaCryptoResult Bool) := do
  let proof ← builder.finalize env nonce
  let proof' ← builder.finalize env nonce'
  pure (self.verifyAll env [(proof, nonce), (proof', nonce')], (self.verify env proof' nonce').1)

theorem verifyTwice_linked : verifyTwice linkedBuilder linkedVerifier suffixEnv 1 2 =
    .ok ([.ok true, .error <| .err .proofRejected
      "Blinded value for common attribute 'age' different across sub proofs"], .ok true) := by
  decide +kernel

theorem not_repeatable : Built linkedVerifier ∧
    verifyTwice linkedBuilder linkedVerifier suffixEnv 1 2 =
      .ok ([.ok true, .error <| .err .proofRejected
        "Blinded value for common attribute 'age' different across sub proofs"], .ok true) ∧
    ¬Repeatable linkedVerifier suffixEnv := by
  refine ⟨linkedVerifier_built, verifyTwice_linked, fun h => ?_⟩
  have hrun := verifyTwice_linked
  simp only [verifyTwice, bind_eq_ok_iff, pure_eq_ok_iff, Prod.mk.injEq] at hrun
  obtain ⟨proof, -, proof', -, hall, hsecond⟩ := hrun
  have hcalls := h [(proof, 1), (proof', 2)]
  simp only [hall, List.map_cons, List.map_nil, hsecond, List.cons.injEq] at hcalls
  cases hcalls.2.1

theorem repeatable_iff_linked : ¬Repeatable linkedVerifier suffixEnv := by
  intro h
  obtain hnames | hcreds := (repeatable_iff linkedVerifier_built).mp h
  · have hage : "age" ∈ linkedVerifier.commonAttributes := Finmap.mem_insert.mpr <| .inl rfl
    rw [hnames] at hage
    exact Finmap.notMem_empty hage
  · cases hcreds

end Mod77

end ProofVerifier
end Ursa
