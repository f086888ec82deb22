import Ursa.Cl.Theorems.Completeness.Presentation
import Ursa.Cl.Theorems.Verification.Context

namespace Ursa

open BigNumber UrsaCryptoResult ProofVerifier

variable {C : Curve} {r : Request C} {rs : List (Request C)} {builder builder' : ProofBuilder C}

namespace Request

variable (r) in
def accepted (builder : ProofBuilder C) : Bool :=
  (r.addTo builder).1.isOk

variable (r) in
-- The request is refused before the lists are extended, or it has no non-revocation part.
def Clean : Prop :=
  r.check ≠ .ok () ∨ r.holding.signature.rCredential = none ∨ r.credential.revReg = none ∨
    r.credential.pubKey.rKey = none ∨ r.holding.witness = none

theorem clean_iff : r.Clean ↔ r.check ≠ .ok () ∨ r.nonRevocationPart = none := by
  rw [Clean]
  obtain ⟨_, _, _, _, h₁, h₂, h₃, h₄, hpart⟩ | ⟨hnone, hpart⟩ := r.nonRevocationPart_cases
  · simp [h₁, h₂, h₃, h₄, hpart]
  · simp [hnone, hpart]

theorem accepted_congr (h : builder.commonAttributes = builder'.commonAttributes) :
    r.accepted builder = r.accepted builder' := by
  rw [accepted, accepted, addTo_eq, addTo_eq, h]
  cases r.check <;> cases r.primaryPart builder'.commonAttributes <;> rfl

@[simp]
theorem addTo_commonAttributes :
    (r.addTo builder).2.commonAttributes = builder.commonAttributes := by
  rw [addTo_eq]
  cases r.check <;> cases r.primaryPart builder.commonAttributes <;> simp

variable (r) in
-- The commitments that a call adds, also when it fails.
def committed (commonAttributes : HashMap BigNumber) : List (List UInt8) :=
  match r.check, r.primaryPart commonAttributes with
  | .error _, _ => []
  | .ok _, .error _ => r.nonRevocationPart.elim [] (·.cList.asList)
  | .ok _, .ok primaryInitProof =>
    r.nonRevocationPart.elim [] (·.cList.asList) ++ primaryInitProof.asCList

theorem addTo_cList : (r.addTo builder).2.cList =
    builder.cList ++ r.committed builder.commonAttributes := by
  rw [addTo_eq, committed]
  cases r.check
  case error => exact (List.append_nil _).symm
  case ok =>
    cases r.primaryPart builder.commonAttributes
    case error => simp only [ProofBuilder.commitNonRevocationPart_eq]
    case ok => rfl

theorem rejected_iff : r.accepted builder = false ↔
    r.check ≠ .ok () ∨ ∃ e, r.primaryPart builder.commonAttributes = .error e := by
  rw [accepted, addTo_eq]
  cases r.check <;> cases r.primaryPart builder.commonAttributes <;> simp [Except.isOk, Except.toBool]

-- A non-revocation part has seven commitments, so a call that adds them cannot go unnoticed.
theorem committed_eq_nil_iff (h : r.accepted builder = false) :
    r.committed builder.commonAttributes = [] ↔ r.Clean := by
  rw [clean_iff, committed]
  obtain hcheck | ⟨e, hprimary⟩ := rejected_iff.mp h
  case inl =>
    refine iff_of_true ?_ (.inl hcheck)
    cases hr : r.check
    case error => rfl
    case ok => exact absurd hr hcheck
  case inr =>
    rw [hprimary]
    cases r.check
    case error => simp
    case ok =>
      cases r.nonRevocationPart
      case none => simp
      case some part => simp [NonRevocProofCList.asList]

theorem addTo_clean (h : r.accepted builder = false) (hclean : r.Clean) :
    (r.addTo builder).2 = builder := by
  rw [addTo_eq]
  cases hcheck : r.check
  case error => rfl
  case ok =>
    obtain hcheck' | hpart := clean_iff.mp hclean
    · exact absurd hcheck hcheck'
    obtain hcheck' | ⟨e, hprimary⟩ := rejected_iff.mp h
    · exact absurd hcheck hcheck'
    rw [hprimary, hpart]
    rfl

theorem addTo_rejected_iff (h : r.accepted builder = false) :
    (r.addTo builder).2 = builder ↔ r.Clean := by
  refine ⟨fun heq => (committed_eq_nil_iff h).mp ?_, addTo_clean h⟩
  have hcList : (r.addTo builder).2.cList =
      builder.cList ++ r.committed builder.commonAttributes := addTo_cList
  rw [heq] at hcList
  exact List.self_eq_append_right.mp hcList

end Request

-- Elements that are left out add nothing.
theorem flatMap_filter_eq_iff {p : α → Bool} {f : α → List β} {l : List α} :
    (l.filter p).flatMap f = l.flatMap f ↔ ∀ a ∈ l, p a = false → f a = [] := by
  induction l
  case nil => simp
  case cons a l hi =>
    rw [List.forall_mem_cons, ← hi]
    cases hp : p a
    case true => simp [List.filter_cons_of_pos hp]
    case false =>
      rw [List.filter_cons_of_neg (by simp [hp]), List.flatMap_cons]
      constructor
      · intro h
        have hle : ((l.filter p).flatMap f).length ≤ (l.flatMap f).length :=
          (List.filter_sublist.flatMap f).length_le
        have hlength := congrArg List.length h
        rw [List.length_append] at hlength
        have hnil : f a = [] := List.length_eq_zero_iff.mp (by omega)
        exact ⟨fun _ => hnil, by rw [h, hnil, List.nil_append]⟩
      · rintro ⟨hnil, h⟩
        rw [h, hnil rfl, List.nil_append]

namespace ProofBuilder

theorem addRequests_of_accepted (h : r.accepted builder = true) :
    addRequests (r :: rs) builder =
      (addRequests rs (r.addTo builder).2).map (r :: ·) id := by
  rw [addRequests]
  rw [Request.accepted] at h
  split
  case h_1 hr => rw [hr]
  case h_2 hr => rw [hr] at h; cases h

theorem addRequests_of_rejected (h : r.accepted builder = false) :
    addRequests (r :: rs) builder = addRequests rs (r.addTo builder).2 := by
  rw [addRequests]
  rw [Request.accepted] at h
  split
  case h_1 hr => rw [hr] at h; cases h
  case h_2 hr => rw [hr]

theorem filter_accepted (h : builder.commonAttributes = builder'.commonAttributes) :
    rs.filter (·.accepted builder) = rs.filter (·.accepted builder') :=
  List.filter_congr fun _ _ => Request.accepted_congr h

theorem addRequests_fst : (addRequests rs builder).1 = rs.filter (·.accepted builder) := by
  induction rs generalizing builder
  case nil => rfl
  case cons r rs hi =>
    have hrest : rs.filter (·.accepted (r.addTo builder).2) = rs.filter (·.accepted builder) :=
      filter_accepted Request.addTo_commonAttributes
    cases hr : r.accepted builder
    case false =>
      rw [addRequests_of_rejected hr, hi, hrest, List.filter_cons_of_neg (by simp [hr])]
    case true =>
      rw [addRequests_of_accepted hr, Prod.map_fst, hi, hrest, List.filter_cons, if_pos hr]

theorem addRequests_snd_cons : (addRequests (r :: rs) builder).2 =
    (addRequests rs (r.addTo builder).2).2 := by
  cases hr : r.accepted builder
  case false => rw [addRequests_of_rejected hr]
  case true => rw [addRequests_of_accepted hr, Prod.map_snd, id]

theorem addRequests_cList : (addRequests rs builder).2.cList =
    builder.cList ++ rs.flatMap (·.committed builder.commonAttributes) := by
  induction rs generalizing builder
  case nil => exact (List.append_nil _).symm
  case cons r rs hi =>
    rw [addRequests_snd_cons, hi, Request.addTo_commonAttributes, Request.addTo_cList,
      List.append_assoc, List.flatMap_cons]

-- A run is the run of its accepted requests, if the other ones are clean.
theorem addRequests_filter (h : ∀ r ∈ rs, r.accepted builder = false → r.Clean) :
    addRequests (rs.filter (·.accepted builder)) builder = addRequests rs builder := by
  induction rs generalizing builder
  case nil => rfl
  case cons r rs hi =>
    obtain ⟨hr, hrs⟩ := List.forall_mem_cons.mp h
    cases haccepted : r.accepted builder
    case false =>
      rw [List.filter_cons_of_neg (by simp [haccepted]), addRequests_of_rejected haccepted,
        Request.addTo_clean haccepted (hr haccepted), hi hrs]
    case true =>
      have hcommon : (r.addTo builder).2.commonAttributes = builder.commonAttributes :=
        Request.addTo_commonAttributes
      have hrest : addRequests (rs.filter (·.accepted (r.addTo builder).2)) (r.addTo builder).2 =
          addRequests rs (r.addTo builder).2 :=
        hi fun r' hr' hrejected => hrs r' hr' <| Request.accepted_congr hcommon ▸ hrejected
      rw [List.filter_cons, if_pos haccepted, addRequests_of_accepted haccepted,
        addRequests_of_accepted haccepted, ← hrest, filter_accepted hcommon]

theorem addRequests_filter_iff :
    addRequests (rs.filter (·.accepted builder)) builder = addRequests rs builder ↔
      ∀ r ∈ rs, r.accepted builder = false → r.Clean := by
  refine ⟨fun h => ?_, addRequests_filter⟩
  have hcList := congrArg (·.2.cList) h
  simp only [addRequests_cList, List.append_cancel_left_eq, flatMap_filter_eq_iff] at hcList
  exact fun r hr hrejected => (Request.committed_eq_nil_iff hrejected).mp <| hcList r hr hrejected

end ProofBuilder

-- A rejected call leaves the builder as it was, and a run goes on as if it had not been made, just
-- if the call is clean. The verifier is then told of the accepted requests only.
theorem rejected_unchanged_iff_clean :
    (∀ (r : Request C) (builder : ProofBuilder C), r.accepted builder = false →
      ((r.addTo builder).2 = builder ↔ r.Clean)) ∧
    (∀ (rs : List (Request C)) (builder : ProofBuilder C),
      builder.addRequests (rs.filter (·.accepted builder)) = builder.addRequests rs ↔
        ∀ r ∈ rs, r.accepted builder = false → r.Clean) ∧
    ∀ (names : List String) (draws : String → BnRand largeMVect) (rs : List (Request C))
      (env env' : Env) (nonce : Nonce),
      let builder := ProofBuilder.withCommonAttributes C names draws
      let accepted := rs.filter (·.accepted builder)
      (∀ r ∈ rs, r.accepted builder = false → r.Clean) → (∀ r ∈ accepted, r.Honest names) →
      (∀ a ∈ names, ∀ r ∈ accepted, ∀ r' ∈ accepted,
        r.holding.values.exponents a = r'.holding.values.exponents a) →
      env.sha256 = env'.sha256 → ∃ verifier proof,
        (ProofVerifier.withCommonAttributes C names).addRequests accepted = .ok verifier ∧
        (builder.addRequests rs).2.finalize env nonce = .ok proof ∧
        (verifier.verify env' proof nonce).1 = .ok true := by
  refine ⟨fun r builder h => Request.addTo_rejected_iff h,
    fun rs builder => ProofBuilder.addRequests_filter_iff, ?_⟩
  intro names draws rs env env' nonce builder accepted hclean hhonest hshared henv
  have hinit : ProofBuilder.Answers names draws [] builder := .init
  obtain ⟨builder', hbuilder', hanswers⟩ := hinit.addRequests_honest hhonest
  rw [List.nil_append] at hanswers
  have hrun : builder.addRequests rs = (accepted, builder') :=
    (ProofBuilder.addRequests_filter hclean).symm.trans hbuilder'
  rw [hrun]
  exact hanswers.verify_ok hhonest hshared henv nonce

section Mod77

def linkBuilder : ProofBuilder curveMod11 :=
  .withCommonAttributes curveMod11 ["link"] fun _ => .zero

-- The holder is not old enough.
def minorRequest : Request curveMod11 :=
  identityRequest { m2 := 1, a := 23, e := primeDraw.value, v := 1 } 20 6 {⟨"age", .GE, 30⟩}

theorem minorRequest_rejected : minorRequest.accepted linkBuilder = false := by
  decide +kernel

theorem filter_accepted_linkBuilder :
    [adultRequest, minorRequest, seniorRequest].filter (·.accepted linkBuilder) =
      [adultRequest, seniorRequest] := by
  have hadult : adultRequest.accepted linkBuilder = true := by decide +kernel
  have hsenior : seniorRequest.accepted linkBuilder = true := by decide +kernel
  simp [hadult, hsenior, minorRequest_rejected]

theorem rejected_unchanged_iff_clean_identity :
    let env : Env := .sorted (fun _ => List.replicate 32 1) fun _ => List.length_replicate
    let rs := [adultRequest, minorRequest, seniorRequest]
    (minorRequest.addTo linkBuilder).2 = linkBuilder ∧
    linkBuilder.addRequests [adultRequest, seniorRequest] = linkBuilder.addRequests rs ∧
    ∃ verifier proof,
      (ProofVerifier.withCommonAttributes curveMod11 ["link"]).addRequests
        [adultRequest, seniorRequest] = .ok verifier ∧
      (linkBuilder.addRequests rs).2.finalize env 5 = .ok proof ∧
      (verifier.verify (reversed env) proof 5).1 = .ok true := by
  intro env rs
  have haccepted : rs.filter (·.accepted linkBuilder) = [adultRequest, seniorRequest] :=
    filter_accepted_linkBuilder
  have hclean : ∀ r ∈ rs, r.accepted linkBuilder = false → r.Clean := by
    have hnone : ∀ r ∈ rs, r.holding.signature.rCredential = none := by
      simp only [rs, List.forall_mem_cons]
      exact ⟨rfl, rfl, rfl, by simp⟩
    exact fun r hr _ => .inr <| .inl <| hnone r hr
  have hhonest : ∀ r ∈ rs.filter (·.accepted linkBuilder), r.Honest ["link"] := by
    rw [haccepted]
    exact identityRequests_honest
  have hshared : ∀ a ∈ ["link"], ∀ r ∈ rs.filter (·.accepted linkBuilder),
      ∀ r' ∈ rs.filter (·.accepted linkBuilder),
        r.holding.values.exponents a = r'.holding.values.exponents a := by
    rw [haccepted]
    exact identityRequests_shared
  obtain ⟨hcall, hruns, hverify⟩ := rejected_unchanged_iff_clean (C := curveMod11)
  refine ⟨?_, ?_, ?_⟩
  · exact (hcall minorRequest linkBuilder minorRequest_rejected).mpr <| .inr <| .inl rfl
  · exact haccepted ▸ (hruns rs linkBuilder).mpr hclean
  · rw [← haccepted]
    exact hverify ["link"] (fun _ => .zero) rs env (reversed env) 5 hclean hhonest hshared rfl

-- A caller that goes on after errors, and a verifier that is told the accepted requests.
def presentRequests (env : Env) (names : List String) (draws : String → BnRand largeMVect)
    (rs : List (Request C)) (nonce : Nonce) : UrsaCryptoResult Bool := do
  let run := (ProofBuilder.withCommonAttributes C names draws).addRequests rs
  let verifier ← (ProofVerifier.withCommonAttributes C names).addRequests run.1
  let proof ← run.2.finalize env nonce
  (verifier.verify env proof nonce).1

-- The holder is not old enough, and has a credential that can be revoked.
def revocableRequest : Request curveMod11 where
  credential := { ageCredential with subProofRequest := ⟨∅, {⟨"age", .GE, 30⟩}⟩ }
  holding :=
    { signature := mixedSignature
      values := ⟨(∅ : BTreeMap CredentialValue).insert "age" (.known 20)⟩
      witness := some ⟨mod11 10⟩ }
  draws := mixedDraws
  env := suffixEnv

-- A hash that depends on all bytes.
def sumEnv : Env :=
  .sorted (fun bytes => List.replicate 31 0 ++ [bytes.sum]) fun _ => by simp

theorem presentRequests_revocable :
    let draws : String → BnRand largeMVect := fun _ => .zero
    presentRequests sumEnv [] draws [adultRequest] 5 = .ok true ∧
    presentRequests sumEnv [] draws [revocableRequest, adultRequest] 5 = .ok false := by
  decide +kernel

-- The error is the one of an unsatisfied predicate.
theorem revocableRequest_spoils :
    let builder := ProofBuilder.new curveMod11
    let draws : String → BnRand largeMVect := fun _ => .zero
    (revocableRequest.addTo builder).1 =
      .error (.err .invalidStructure "Predicate is not satisfied") ∧
    (revocableRequest.addTo builder).2 ≠ builder ∧
    (builder.addRequests [revocableRequest, adultRequest]).1 = [adultRequest] ∧
    presentRequests sumEnv [] draws [adultRequest] 5 = .ok true ∧
    presentRequests sumEnv [] draws [revocableRequest, adultRequest] 5 = .ok false := by
  intro builder draws
  have hcall : (revocableRequest.addTo builder).1 =
      .error (.err .invalidStructure "Predicate is not satisfied") := by
    decide +kernel
  have hcList : (revocableRequest.addTo builder).2.cList.length = 7 := by decide +kernel
  have hrejected : revocableRequest.accepted builder = false := by
    rw [Request.accepted, hcall]
    rfl
  have hadult : adultRequest.accepted builder = true := by decide +kernel
  refine ⟨hcall, fun heq => ?_, ?_, presentRequests_revocable⟩
  · rw [heq] at hcList
    cases hcList
  · rw [ProofBuilder.addRequests_fst]
    simp [hrejected, hadult]

end Mod77

end Ursa
