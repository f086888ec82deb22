import Ursa.Cl.Theorems.Completeness.Presentation

namespace Ursa

open BigNumber UrsaCryptoResult ProofVerifier

variable {C : Curve} {env : Env} {nonce : Nonce} {proof : Proof C} {builder : ProofBuilder C}

namespace ProofBuilder

section Keys

variable {initProof : PrimaryEqualInitProof} {c : ℤ} {cs : CredentialSchema}
variable {ncs : NonCredentialSchema} {values : CredentialValues} {spr : SubProofRequest}

theorem mem_foldlM_revealAttr {l : List String} {m : BTreeMap BigNumber}
    (h : l.foldlM (revealAttr values) ∅ = .ok m) : a ∈ m ↔ a ∈ l := by
  have hinv := foldlM_invariant (I := fun rest (m : BTreeMap BigNumber) => a ∈ m ∨ a ∈ rest ↔ a ∈ l)
    (fun attr rest m m' hI hb => ?_) (or_iff_right Finmap.notMem_empty) h
  case refine_1 =>
    simp only [revealAttr, bind_eq_ok_iff, okOrElse_eq_ok_iff, pure_eq_ok_iff] at hb
    obtain ⟨value, -, rfl⟩ := hb
    rw [← hI, Finmap.mem_insert, List.mem_cons, or_assoc, or_left_comm]
  rwa [or_iff_left List.not_mem_nil] at hinv

-- What is asked for is what is revealed, whatever kind of value it has.
theorem mem_revealedAttrs {eqProof : PrimaryEqualProof}
    (h : finalizeEqProof initProof c cs ncs values spr = .ok eqProof) :
    a ∈ eqProof.revealedAttrs ↔ a ∈ spr.revealedAttrs := by
  simp only [finalizeEqProof, bind_eq_ok_iff, pure_eq_ok_iff] at h
  obtain ⟨m, -, revealed, hrevealed, rfl⟩ := h
  rw [mem_foldlM_revealAttr hrevealed, BTreeSet.mem_iter]

end Keys

-- The calls of a caller that builds one proof.
inductive Call (C : Curve)
  | addCommonAttribute (attrName : String) (draw : BnRand largeMVect)
  | addSubProofRequest (r : Request C)

-- The requests that were accepted, and the builder.
abbrev History (C : Curve) := List (Request C) × ProofBuilder C

-- A caller may go on after an error.
def perform (history : History C) : Call C → History C
  | .addCommonAttribute attrName draw => (history.1, history.2.addCommonAttribute attrName draw)
  | .addSubProofRequest r =>
    match r.addTo history.2 with
    | (.ok _, builder)    => (history.1 ++ [r], builder)
    | (.error _, builder) => (history.1, builder)

def run (calls : List (Call C)) : History C :=
  calls.foldl perform ([], new C)

-- The builder holds one entry for each accepted request.
def Holds (history : History C) : Prop :=
  List.Forall₂ (fun r initProof => initProof.subProofRequest = r.credential.subProofRequest ∧
    initProof.credentialValues = r.holding.values) history.1 history.2.initProofs

theorem Holds.perform {history : History C} (h : Holds history) (call : Call C) :
    Holds (perform history call) := by
  cases call with
  | addCommonAttribute attrName draw => exact h
  | addSubProofRequest r =>
    rw [ProofBuilder.perform, Request.addTo_eq]
    cases r.check with
    | error e => exact h
    | ok _ =>
      cases r.primaryPart history.2.commonAttributes with
      | error e =>
        rw [Holds, commitNonRevocationPart_eq]
        exact h
      | ok primaryInitProof => exact List.rel_append h <| .cons ⟨rfl, rfl⟩ .nil

theorem holds_run (calls : List (Call C)) : Holds (run calls) :=
  List.foldlRecOn calls perform .nil fun _ h call _ => h.perform call

theorem mem_run {calls : List (Call C)} (hr : r ∈ (run calls).1) :
    .addSubProofRequest r ∈ calls := by
  have hrun : ∀ r ∈ (run calls).1, Call.addSubProofRequest r ∈ calls := by
    refine List.foldlRecOn calls perform (b := ([], new C)) (motive := fun history =>
      ∀ r ∈ history.1, Call.addSubProofRequest r ∈ calls)
      (List.forall_mem_nil _) fun history h call hcall => ?_
    cases call with
    | addCommonAttribute attrName draw => exact h
    | addSubProofRequest r =>
      rw [perform]
      split
      · exact List.forall_mem_append.mpr ⟨h, List.forall_mem_singleton.mpr hcall⟩
      · exact h
  exact hrun r hr

theorem forall₂_finalize (h : builder.finalize env nonce = .ok proof) :
    ∃ c, List.Forall₂ (fun initProof subProof => finalizeSubProof c initProof = .ok subProof)
      builder.initProofs proof.proofs := by
  simp only [finalize, bind_eq_ok_iff, pure_eq_ok_iff] at h
  obtain ⟨proofs, hproofs, rfl⟩ := h
  exact ⟨_, mapM_eq_ok_iff.mp hproofs⟩

-- No sub proof reveals an attribute that is hidden in the values it is made from.
def Undisclosed (rs : List (Request C)) (proof : Proof C) : Prop :=
  List.Forall₂ (fun r subProof => ∀ a ∈ subProof.primaryProof.eqProof.revealedAttrs,
    ∀ value ∈ r.holding.values.attrsValues.lookup a, value.isHidden = false) rs proof.proofs

end ProofBuilder

-- The verifier asks for the value of a hidden attribute.
def Request.AsksHidden (r : Request C) : Prop :=
  ∃ a ∈ r.credential.subProofRequest.revealedAttrs,
    ∃ value ∈ r.holding.values.attrsValues.lookup a, value.isHidden = true

namespace ProofBuilder

theorem undisclosed_iff (calls : List (Call C))
    (h : (run calls).2.finalize env nonce = .ok proof) :
    Undisclosed (run calls).1 proof ↔ ∀ r ∈ (run calls).1, ¬r.AsksHidden := by
  obtain ⟨c, hproofs⟩ := forall₂_finalize h
  have hheld := holds_run calls
  rw [Holds] at hheld
  rw [Undisclosed]
  generalize (run calls).1 = rs at hheld ⊢
  generalize (run calls).2.initProofs = initProofs at hheld hproofs
  generalize proof.proofs = proofs at hproofs ⊢
  induction hheld generalizing proofs
  case nil =>
    cases hproofs
    simp
  case cons r initProof rs initProofs hr _ hi =>
    obtain ⟨subProof, subProofs, hfin, hrest, rfl⟩ := List.forall₂_cons_left_iff.mp hproofs
    rw [List.forall₂_cons, List.forall_mem_cons]
    refine and_congr ?_ (hi _ hrest)
    simp only [Request.AsksHidden, mem_revealedAttrs (Presentation.finalizeSubProof_eq_ok hfin),
      hr.left, not_exists, not_and, Bool.not_eq_true]

-- A request without predicates for one attribute.
def revealRequest (a : String) : Request curveMod11 :=
  { identityRequest { m2 := 1, a := 23, e := primeDraw.value, v := 1 } 20 6 ∅ with
    credential :=
      { pubKey := identityPubKey
        subProofRequest := { revealedAttrs := {a}, predicates := ∅ }
        credentialSchema := ⟨{"age", "name"}⟩
        nonCredentialSchema := ⟨{"link"}⟩
        revKeyPub := none
        revReg := none } }

-- What the proof for one request reveals.
def revealed (a : String) : UrsaCryptoResult (List (Option BigNumber)) :=
  ((run [.addSubProofRequest (revealRequest a)]).2.finalize Presentation.zeroEnv 5).map fun proof =>
    proof.proofs.map (·.primaryProof.eqProof.revealedAttrs.lookup a)

theorem exists_proof (h : revealed a = .ok values) : ∃ proof,
    (run [.addSubProofRequest (revealRequest a)]).2.finalize Presentation.zeroEnv 5 = .ok proof ∧
      proof.proofs.map (·.primaryProof.eqProof.revealedAttrs.lookup a) = values := by
  unfold revealed at h
  cases hproof : (run [.addSubProofRequest (revealRequest a)]).2.finalize Presentation.zeroEnv 5 with
  | error e => rw [hproof] at h; cases h
  | ok proof => rw [hproof] at h; exact ⟨proof, rfl, Except.ok.inj h⟩

theorem undisclosed_name : ∃ proof,
    (run [.addSubProofRequest (revealRequest "name")]).2.finalize Presentation.zeroEnv 5 =
      .ok proof ∧ Undisclosed (run [.addSubProofRequest (revealRequest "name")]).1 proof := by
  have hrevealed : revealed "name" = .ok [some 6] := by decide +kernel
  obtain ⟨proof, hproof, -⟩ := exists_proof hrevealed
  refine ⟨proof, hproof, (undisclosed_iff _ hproof).mpr fun r hr => ?_⟩
  obtain rfl : r = revealRequest "name" := by simpa using mem_run hr
  rintro ⟨a, ha, value, hvalue, hhidden⟩
  obtain rfl : a = "name" := Finset.mem_singleton.mp ha
  have hname : (revealRequest "name").holding.values.attrsValues.lookup "name" =
      some (.known 6) := by decide +kernel
  rw [hname] at hvalue
  cases hvalue
  cases hhidden

-- The verifier asks for the link secret.
theorem not_undisclosed : ¬∀ (C : Curve) (env : Env) (nonce : Nonce) (proof : Proof C)
    (calls : List (Call C)), (run calls).2.finalize env nonce = .ok proof →
    Undisclosed (run calls).1 proof := by
  intro h
  have hrevealed : revealed "link" = .ok [some 5] := by decide +kernel
  obtain ⟨proof, hproof, hvalues⟩ := exists_proof hrevealed
  obtain ⟨subProof, hsubProofs, hlink⟩ := List.map_eq_singleton_iff.mp hvalues
  have hundisclosed := h _ _ _ _ _ hproof
  rw [Undisclosed, hsubProofs] at hundisclosed
  obtain ⟨r, rs, hr, -, hrs⟩ := List.forall₂_cons_right_iff.mp hundisclosed
  have hmem := mem_run (hrs.symm ▸ List.mem_cons_self : r ∈ (run _).1)
  obtain rfl : r = revealRequest "link" := by simpa using hmem
  have hhidden : (revealRequest "link").holding.values.attrsValues.lookup "link" =
      some (.hidden 5) := by decide +kernel
  cases hr "link" (Finmap.mem_of_lookup_eq_some hlink) _ hhidden

end ProofBuilder
end Ursa
