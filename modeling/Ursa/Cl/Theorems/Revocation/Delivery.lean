import Ursa.Cl.Accessor
import Ursa.Cl.Theorems.Revocation.Registry

namespace Ursa

open BigNumber UrsaCryptoResult

variable {C : Curve} {profile : Profile} {env : Env} {L i k : UInt32}
variable {revReg registry : RevocationRegistry C}
variable {delta : RevocationRegistryDelta C} {accessor : AnyTailsAccessor C}

namespace TailAccess

variable {access : TailAccess C}

theorem add_accum : (access.add revReg).accum = revReg.accum + access.tails.sum := by
  unfold add
  dsimp only
  generalize revReg.accum = accum
  induction access.tails generalizing accum
  case nil => exact (add_zero accum).symm
  case cons tail tails hi => rw [List.foldl_cons, hi, List.sum_cons, add_assoc]

theorem sub_accum : (access.sub revReg).accum = revReg.accum - access.tails.sum := by
  unfold sub
  dsimp only
  generalize revReg.accum = accum
  induction access.tails generalizing accum
  case nil => exact (sub_zero accum).symm
  case cons tail tails hi => rw [List.foldl_cons, hi, List.sum_cons, sub_sub]

theorem add_eq_iff : access.add revReg = revReg ↔ access.tails.sum = 0 := by
  rw [← add_eq_left (a := revReg.accum), ← add_accum]
  exact ⟨congrArg _, fun h => congrArg RevocationRegistry.mk h⟩

theorem sub_eq_iff : access.sub revReg = revReg ↔ access.tails.sum = 0 := by
  rw [← sub_eq_self (a := revReg.accum), ← sub_accum]
  exact ⟨congrArg _, fun h => congrArg RevocationRegistry.mk h⟩

-- A call of the accessor that cannot lose a delta.
def Harmless (access : TailAccess C) : Prop :=
  access.result = .ok () ∨ access.tails.sum = 0

end TailAccess

namespace Issuer.InPlace

-- The registry goes from `revReg` to `registry` by a delta that tells of this change.
def Publishes (revReg registry : RevocationRegistry C) (delta : RevocationRegistryDelta C) : Prop :=
  delta.prevAccum = some revReg.accum ∧ delta.accum = registry.accum

-- The call gives back what it did to the registry.
def Delivered (revReg registry : RevocationRegistry C) :
    UrsaCryptoResult (Option (RevocationRegistryDelta C)) → Prop
  | .ok (some delta) => Publishes revReg registry delta
  | .ok none         => registry = revReg
  | .error _         => registry = revReg

-- What a call can do: it delivers its change, or it fails with the registry changed. The second
-- happens exactly without the condition.
def Settled (revReg : RevocationRegistry C)
    (outcome : WithRegistry C (UrsaCryptoResult (Option (RevocationRegistryDelta C))))
    (clean : Prop) : Prop :=
  Delivered revReg outcome.2 outcome.1 ∧ clean ∨
    (∃ e, outcome.1 = .error e) ∧ outcome.2 ≠ revReg ∧ ¬clean

-- What the accessor does when it is asked for the tail of an index.
def HarmlessAt (profile : Profile) (accessor : AnyTailsAccessor C) (maxCredNum revIdx : UInt32) :
    Prop :=
  ∀ k, profile.getIndex maxCredNum revIdx = .ok k → (accessor k).Harmless

-- The steps before the accessor go through.
structure Signing.ReachesTails (env : Env) (s : Signing C) : Prop where
  check : checkBlindedCredentialSecretsCorrectnessProof env s.blindedCredentialSecrets
    s.blindedCredentialSecretsCorrectnessProof s.credentialNonce s.credentialPubKey.pKey = .ok ()
  primary : CanSignPrimary s.credentialPubKey s.credentialPrivKey (s.credContext env)
    s.credentialValues (generateVPrimePrime s.draws.vPrimePrime) s.draws.e.value
  ur : s.blindedCredentialSecrets.ur ≠ none
  rPubKey : s.credentialPubKey.rKey ≠ none
  rPrivKey : ∃ rPrivKey, s.credentialPrivKey.rKey = some rPrivKey ∧
    rPrivKey.x + s.revocationDraws.c ≠ 0 ∧
    rPrivKey.sk + s.revKeyPriv.gamma ^ s.revIdx.toNat ≠ 0
  byDefault : s.issuanceByDefault = false

-- The condition on a call: the tail that it asks for comes without an error, or the tails sum to
-- zero. A signature also needs a positive order, without which its correctness proof fails.
def Call.Clean (profile : Profile) (env : Env) : Call C → Prop
  | sign s => s.ReachesTails env → ∀ k, profile.getIndex s.maxCredNum s.revIdx = .ok k →
      (s.revTailsAccessor k).result = .ok () ∧
          (0 : ℤ) < s.credentialPrivKey.pKey.p * s.credentialPrivKey.pKey.q ∨
        (s.revTailsAccessor k).tails.sum = 0
  | revoke maxCredNum revIdx accessor  => HarmlessAt profile accessor maxCredNum revIdx
  | recover maxCredNum revIdx accessor => HarmlessAt profile accessor maxCredNum revIdx

section Operations

variable {access : TailAccess C} {s : Signing C}

theorem settled_error {clean : Prop} (h : registry = revReg ↔ clean) :
    Settled revReg (.error e, registry) clean := by
  by_cases hclean : clean
  case pos => exact .inl ⟨h.mpr hclean, hclean⟩
  case neg => exact .inr ⟨⟨e, rfl⟩, mt h.mp hclean, hclean⟩

theorem settled_access (hdelta : Publishes revReg registry delta)
    (hregistry : registry = revReg ↔ access.tails.sum = 0) :
    Settled revReg ((access.result.map fun _ => delta).map some, registry) access.Harmless := by
  unfold TailAccess.Harmless
  cases access.result with
  | ok _    => exact .inl ⟨hdelta, .inl rfl⟩
  | error e => exact settled_error <| hregistry.trans (or_iff_right nofun).symm

theorem revokeCredential_settled :
    Settled revReg ((Call.revoke L i accessor).run profile env revReg)
      (HarmlessAt profile accessor L i) := by
  simp only [Call.run, revokeCredential, HarmlessAt]
  cases profile.getIndex L i with
  | error e => exact .inl ⟨rfl, fun _ hk => by cases hk⟩
  | ok k =>
    simp only [Except.ok.injEq, forall_eq']
    exact settled_access ⟨rfl, rfl⟩ TailAccess.sub_eq_iff

theorem recoveryCredential_settled :
    Settled revReg ((Call.recover L i accessor).run profile env revReg)
      (HarmlessAt profile accessor L i) := by
  simp only [Call.run, recoveryCredential, HarmlessAt]
  cases profile.getIndex L i with
  | error e => exact .inl ⟨rfl, fun _ hk => by cases hk⟩
  | ok k =>
    simp only [Except.ok.injEq, forall_eq']
    exact settled_access ⟨rfl, rfl⟩ TailAccess.add_eq_iff

theorem primary_ok_iff : (∃ result, s.primary env = .ok result) ↔
    checkBlindedCredentialSecretsCorrectnessProof env s.blindedCredentialSecrets
        s.blindedCredentialSecretsCorrectnessProof s.credentialNonce s.credentialPubKey.pKey =
      .ok () ∧
    CanSignPrimary s.credentialPubKey s.credentialPrivKey (s.credContext env)
      s.credentialValues (generateVPrimePrime s.draws.vPrimePrime) s.draws.e.value := by
  constructor
  case mp =>
    rintro ⟨result, h⟩
    simp only [Signing.primary, newPrimaryCredential, bind_eq_ok_iff] at h
    obtain ⟨⟨⟩, hcheck, aq, hsign, -⟩ := h
    obtain ⟨hn, hu⟩ := isUnit_of_check hcheck
    exact ⟨hcheck, canSignPrimary_of_eq_ok hn hu hsign⟩
  case mpr =>
    rintro ⟨hcheck, hprimary⟩
    obtain ⟨hn, hu⟩ := isUnit_of_check hcheck
    obtain ⟨aq, hsign⟩ := signPrimaryCredential_ok hn hu hprimary
    exact ⟨_, by
      simp only [Signing.primary, newPrimaryCredential, hcheck, hsign, ok_bind]
      rfl⟩

theorem signNonRevocation_ok_iff {blinded : BlindedCredentialSecrets C}
    {pubKey : CredentialPublicKey C} {privKey : CredentialPrivateKey C}
    {revKeyPriv : RevocationKeyPrivate C} {draws : NonRevocationDraws C} :
    (∃ signature, signNonRevocation profile i (genCredentialContext env proverId (some i)) blinded
        pubKey privKey L revKeyPriv draws = .ok signature) ↔
      blinded.ur ≠ none ∧ pubKey.rKey ≠ none ∧
      (∃ rPrivKey, privKey.rKey = some rPrivKey ∧ rPrivKey.x + draws.c ≠ 0 ∧
        rPrivKey.sk + revKeyPriv.gamma ^ i.toNat ≠ 0) ∧ ∃ k, profile.getIndex L i = .ok k := by
  have hm2 : bignumToGroupElement C (genCredentialContext env proverId (some i)) = .ok _ :=
    bignumToGroupElement_eq_ok (getHashAsInt_nonneg ..) (getHashAsInt_lt ..)
  constructor
  case mp =>
    simp only [signNonRevocation, bind_eq_ok_iff, okOrElse_eq_ok_iff, powMod_eq, hm2,
      Except.ok.injEq, exists_eq_left', GroupOrderElement.inverse]
    rintro ⟨_, ur, hur, rPubKey, hpub, rPrivKey, hpriv, _, hx, _, hsk, k, hk, -⟩
    split_ifs at hx with hx₀
    split_ifs at hsk with hsk₀
    exact ⟨by simp [hur], by simp [hpub], ⟨rPrivKey, hpriv, hx₀, hsk₀⟩, k, hk⟩
  case mpr =>
    rintro ⟨hur, hpub, ⟨rPrivKey, hpriv, hx, hsk⟩, k, hk⟩
    obtain ⟨ur, hur⟩ := Option.ne_none_iff_exists'.mp hur
    obtain ⟨rPubKey, hpub⟩ := Option.ne_none_iff_exists'.mp hpub
    simp only [signNonRevocation, hur, hpub, hpriv, okOrElse, hm2, powMod_eq,
      GroupOrderElement.inverse, if_neg hx, if_neg hsk, hk, ok_bind]
    exact ⟨_, rfl⟩

theorem newSignatureCorrectnessProof_ok_iff (h : s.primary env = .ok (pCred, q)) :
    (∃ proof, newSignatureCorrectnessProof env s.credentialPubKey.pKey s.credentialPrivKey.pKey
        pCred q s.credentialIssuanceNonce s.draws.r = .ok proof) ↔
      (0 : ℤ) < s.credentialPrivKey.pKey.p * s.credentialPrivKey.pKey.q := by
  obtain ⟨hcheck, hprimary⟩ := primary_ok_iff.mp ⟨_, h⟩
  constructor
  case mp =>
    rintro ⟨proof, hproof⟩
    simp only [newSignatureCorrectnessProof, bnRandRange, bind_eq_ok_iff] at hproof
    obtain ⟨r, hr, -⟩ := hproof
    by_contra hneg
    rw [if_neg hneg] at hr
    cases hr
  case mpr =>
    intro hpos
    simp only [Signing.primary, newPrimaryCredential, bind_eq_ok_iff, pure_eq_ok_iff,
      Prod.mk.injEq] at h
    obtain ⟨-, -, aq, -, rfl, -⟩ := h
    exact newSignatureCorrectnessProof_ok (ne_zero_of_one_lt (isUnit_of_check hcheck).1)
      ((one_lt_natAbs_iff hpos).mp hprimary.order) hprimary.e q s.draws.r

theorem Signing.reachesTails_iff :
    (s.ReachesTails env ∧ ∃ k, profile.getIndex s.maxCredNum s.revIdx = .ok k) ↔
      (∃ result, s.primary env = .ok result) ∧
      (∃ signature, signNonRevocation profile s.revIdx (s.credContext env)
        s.blindedCredentialSecrets s.credentialPubKey s.credentialPrivKey s.maxCredNum s.revKeyPriv
        s.revocationDraws = .ok signature) ∧ s.issuanceByDefault = false := by
  rw [primary_ok_iff, Signing.credContext, signNonRevocation_ok_iff]
  constructor
  case mp =>
    rintro ⟨h, hk⟩
    exact ⟨⟨h.check, h.primary⟩, ⟨h.ur, h.rPubKey, h.rPrivKey, hk⟩, h.byDefault⟩
  case mpr =>
    rintro ⟨⟨hcheck, hprimary⟩, ⟨hur, hpub, hpriv, hk⟩, hdefault⟩
    exact ⟨⟨hcheck, hprimary, hur, hpub, hpriv, hdefault⟩, hk⟩

-- A call that ends before the accessor leaves the registry, and what comes after does not matter.
theorem Call.clean_of_not_reaches
    (h : ¬(s.ReachesTails env ∧ ∃ k, profile.getIndex s.maxCredNum s.revIdx = .ok k)) :
    (Call.sign s).Clean profile env :=
  fun hreaches k hk => absurd ⟨hreaches, k, hk⟩ h

theorem signCredentialWithRevoc_settled :
    Settled revReg ((Call.sign s).run profile env revReg) ((Call.sign s).Clean profile env) := by
  simp only [Call.run, signCredentialWithRevoc]
  cases hprimary : s.primary env with
  | error e =>
    refine .inl ⟨rfl, Call.clean_of_not_reaches fun hreaches => ?_⟩
    obtain ⟨⟨_, hok⟩, -, -⟩ := Signing.reachesTails_iff.mp hreaches
    cases hprimary.symm.trans hok
  | ok result =>
    obtain ⟨pCred, q⟩ := result
    dsimp only
    unfold newNonRevocationCredential
    cases hsign : signNonRevocation profile s.revIdx (s.credContext env) s.blindedCredentialSecrets
      s.credentialPubKey s.credentialPrivKey s.maxCredNum s.revKeyPriv s.revocationDraws with
    | error e =>
      refine .inl ⟨rfl, Call.clean_of_not_reaches fun hreaches => ?_⟩
      obtain ⟨-, ⟨_, hok⟩, -⟩ := Signing.reachesTails_iff.mp hreaches
      cases hsign.symm.trans hok
    | ok signature =>
      dsimp only
      cases hdefault : s.issuanceByDefault with
      | true =>
        refine .inl ⟨?_, Call.clean_of_not_reaches fun hreaches => ?_⟩
        case refine_1 =>
          simp only [if_true, ok_bind]
          cases newSignatureCorrectnessProof env s.credentialPubKey.pKey
            s.credentialPrivKey.pKey pCred q s.credentialIssuanceNonce s.draws.r
          all_goals rfl
        case refine_2 =>
          obtain ⟨-, -, hfalse⟩ := Signing.reachesTails_iff.mp hreaches
          cases hdefault.symm.trans hfalse
      | false =>
        obtain ⟨hreaches, k, hk⟩ :=
          Signing.reachesTails_iff.mpr ⟨⟨_, hprimary⟩, ⟨_, hsign⟩, hdefault⟩
        -- From here on the registry has changed, and two steps can still fail.
        simp only [Call.Clean, hreaches, forall_true_left, hk, Except.ok.injEq, forall_eq',
          ← newSignatureCorrectnessProof_ok_iff hprimary, recoveryCredential,
          Bool.false_eq_true, if_false]
        cases (s.revTailsAccessor k).result with
        | error e =>
          exact settled_error <| TailAccess.add_eq_iff.trans (or_iff_right fun h => by cases h.1).symm
        | ok _ =>
          cases newSignatureCorrectnessProof env s.credentialPubKey.pKey
            s.credentialPrivKey.pKey pCred q s.credentialIssuanceNonce s.draws.r with
          | error e =>
            exact settled_error <|
              TailAccess.add_eq_iff.trans (or_iff_right fun h => by cases h.2.choose_spec).symm
          | ok proof => exact .inl ⟨⟨rfl, rfl⟩, .inl ⟨rfl, proof, rfl⟩⟩

theorem Call.run_settled : (call : Call C) →
    Settled revReg (call.run profile env revReg) (call.Clean profile env)
  | sign _     => signCredentialWithRevoc_settled
  | revoke ..  => revokeCredential_settled
  | recover .. => recoveryCredential_settled

end Operations

section Runs

variable {call : Call C} {calls : List (Call C)} {start : RevocationRegistryDelta C}

theorem Call.unchanged_iff :
    (∀ e, (call.run profile env revReg).1 = .error e → (call.run profile env revReg).2 = revReg) ↔
      call.Clean profile env := by
  have hsettled : Settled revReg (call.run profile env revReg) (call.Clean profile env) :=
    call.run_settled
  obtain ⟨hdelivered, hclean⟩ | ⟨⟨e, he⟩, hchanged, hclean⟩ := hsettled
  case inl =>
    refine iff_of_true (fun e he => ?_) hclean
    rwa [he] at hdelivered
  case inr => exact iff_of_false (fun h => hchanged <| h e he) hclean

-- The deltas that came back so far, merged in order, end at the accumulator of the registry.
def Chains (profile : Profile) (env : Env) (start : RevocationRegistryDelta C)
    (revReg : RevocationRegistry C) (calls : List (Call C)) : Prop :=
  ∃ merged, start.mergeAll (runCalls profile env revReg calls).1 = (.ok (), merged) ∧
    merged.accum = (runCalls profile env revReg calls).2.accum

theorem merge_publishes (hstart : start.accum = revReg.accum)
    (h : Publishes revReg registry delta) :
    ∃ merged, start.merge delta = (.ok (), merged) ∧ merged.accum = registry.accum := by
  simp [RevocationRegistryDelta.merge, h.1, hstart, h.2]

-- A clean call hands the run over to the calls after it.
theorem chains_cons (hstart : start.accum = revReg.accum) (hclean : call.Clean profile env) :
    ∃ next : RevocationRegistryDelta C, next.accum = (call.run profile env revReg).2.accum ∧
      ∀ calls, Chains profile env start revReg (call :: calls) ↔
        Chains profile env next (call.run profile env revReg).2 calls := by
  have hsettled : Settled revReg (call.run profile env revReg) (call.Clean profile env) :=
    call.run_settled
  obtain ⟨hdelivered, -⟩ | ⟨-, -, hnot⟩ := hsettled
  case inr => exact absurd hclean hnot
  case inl =>
    unfold Chains
    simp only [runCalls]
    generalize call.run profile env revReg = outcome at hdelivered
    obtain ⟨result, registry⟩ := outcome
    cases result with
    | error e =>
      obtain rfl : registry = revReg := hdelivered
      exact ⟨start, hstart, fun _ => .rfl⟩
    | ok published =>
      cases published with
      | none =>
        obtain rfl : registry = revReg := hdelivered
        exact ⟨start, hstart, fun _ => .rfl⟩
      | some delta =>
        obtain ⟨merged, hmerge, haccum⟩ := merge_publishes hstart hdelivered
        exact ⟨merged, haccum, fun calls => by
          simp only [RevocationRegistryDelta.mergeAll, hmerge]⟩

theorem not_chains_singleton (hstart : start.accum = revReg.accum)
    (hclean : ¬call.Clean profile env) : ¬Chains profile env start revReg [call] := by
  have hsettled : Settled revReg (call.run profile env revReg) (call.Clean profile env) :=
    call.run_settled
  obtain ⟨-, hclean'⟩ | ⟨⟨e, he⟩, hchanged, -⟩ := hsettled
  case inl => exact absurd hclean' hclean
  case inr =>
    rintro ⟨merged, hmerge, haccum⟩
    simp only [runCalls, he, RevocationRegistryDelta.mergeAll, Prod.mk.injEq, true_and]
      at hmerge haccum
    subst hmerge
    exact hchanged <| congrArg RevocationRegistry.mk <| haccum.symm.trans hstart

-- Induction on the calls: the first call without the condition breaks the chain where it ends.
theorem chains_iff (hstart : start.accum = revReg.accum) :
    (∀ done, done <+: calls → Chains profile env start revReg done) ↔
      ∀ call ∈ calls, call.Clean profile env := by
  induction calls generalizing start revReg
  case nil =>
    refine iff_of_true (fun done hdone => ?_) fun _ hcall => absurd hcall List.not_mem_nil
    rw [List.prefix_nil.mp hdone]
    exact ⟨start, rfl, hstart⟩
  case cons call calls hi =>
    rw [List.forall_mem_cons]
    by_cases hclean : call.Clean profile env
    case neg =>
      refine iff_of_false (fun h => ?_) fun h => hclean h.1
      exact not_chains_singleton hstart hclean <| h [call] ⟨calls, rfl⟩
    case pos =>
      obtain ⟨next, hnext, hcons⟩ := chains_cons hstart hclean
      rw [and_iff_right hclean, ← hi hnext]
      constructor
      case mp =>
        intro h done hdone
        exact (hcons done).mp <| h (call :: done) <| List.cons_prefix_cons.mpr ⟨rfl, hdone⟩
      case mpr =>
        intro h done hdone
        cases done with
        | nil => exact ⟨start, rfl, hstart⟩
        | cons call' done =>
          obtain ⟨rfl, hprefix⟩ := List.cons_prefix_cons.mp hdone
          exact (hcons done).mpr <| h done hprefix

theorem delivered_iff (profile : Profile) (env : Env) (revReg : RevocationRegistry C)
    (call : Call C) (calls : List (Call C)) :
    ((∀ e, (call.run profile env revReg).1 = .error e → (call.run profile env revReg).2 = revReg) ↔
      call.Clean profile env) ∧
    ((∀ done, done <+: calls → Chains profile env (.fromParts none revReg ∅ ∅) revReg done) ↔
      ∀ call ∈ calls, call.Clean profile env) :=
  ⟨Call.unchanged_iff, chains_iff rfl⟩

-- A tail goes to the closure, and then `put` fails.
def revokeWithoutPut (C : Curve) (tail : Tail C) : Call C :=
  .revoke 1 1
    { take := fun _ => some tail
      put := fun _ => false
      takeFailed := fun _ => "FFI call take_tail failed"
      putFailed := fun _ => "FFI call put_tail failed" : FFITailsAccessor C }.accessTail

theorem not_delivered : ¬∀ (C : Curve) (profile : Profile) (env : Env)
    (revReg : RevocationRegistry C) (call : Call C) e,
    (call.run profile env revReg).1 = .error e → (call.run profile env revReg).2 = revReg := by
  intro h
  let env : Env := .sorted (fun _ => List.replicate 32 0) fun _ => List.length_replicate
  have hrun := h ProofVerifier.curveMod11 .release env { accum := 0 }
    (revokeWithoutPut _ (ProofVerifier.mod11 1)) _ rfl
  have haccum := congrArg RevocationRegistry.accum hrun
  revert haccum
  decide

end Runs

section Once

-- In a `dev` build: the calls with a result that holds the registry, which an error leaves as it was.
def inPlace (revReg : RevocationRegistry C) :
    UrsaCryptoResult (WithRegistry C α) → WithRegistry C (UrsaCryptoResult α)
  | .ok (result, registry) => (.ok result, registry)
  | .error e               => (.error e, revReg)

variable {revTailsAccessor : RevocationTailsAccessor C}

theorem revokeCredential_once :
    revokeCredential .dev revReg L i (.once revTailsAccessor) =
      inPlace revReg (Issuer.revokeCredential revReg L i revTailsAccessor) := by
  unfold revokeCredential Issuer.revokeCredential
  rw [Profile.getIndex_dev]
  cases getIndex L i with
  | error e => rfl
  | ok k =>
    simp only [TailAccess.once, ok_bind]
    cases revTailsAccessor k
    all_goals rfl

theorem recoveryCredential_once :
    recoveryCredential .dev revReg L i (.once revTailsAccessor) =
      inPlace revReg (Issuer.recoveryCredential revReg L i revTailsAccessor) := by
  unfold recoveryCredential Issuer.recoveryCredential addIndex
  rw [Profile.getIndex_dev]
  cases getIndex L i with
  | error e => rfl
  | ok k =>
    simp only [TailAccess.once, ok_bind]
    cases revTailsAccessor k
    all_goals rfl

theorem newNonRevocationCredential_once {blinded : BlindedCredentialSecrets C}
    {pubKey : CredentialPublicKey C} {privKey : CredentialPrivateKey C}
    {revKeyPriv : RevocationKeyPrivate C} {draws : NonRevocationDraws C} :
    newNonRevocationCredential .dev i ctx blinded pubKey privKey L byDefault revReg revKeyPriv
        (.once revTailsAccessor) draws =
      inPlace revReg (Issuer.newNonRevocationCredential i ctx blinded pubKey privKey L byDefault
        revReg revKeyPriv revTailsAccessor draws) := by
  have hsteps : Issuer.newNonRevocationCredential i ctx blinded pubKey privKey L byDefault
      revReg revKeyPriv revTailsAccessor draws =
        (signNonRevocation .dev i ctx blinded pubKey privKey L revKeyPriv draws >>= fun signature =>
          if byDefault then pure ((signature, none), revReg)
          else Issuer.recoveryCredential revReg L i revTailsAccessor >>= fun result =>
            pure ((signature, some result.1), result.2)) := by
    simp only [Issuer.newNonRevocationCredential, signNonRevocation, Profile.getIndex_dev,
      bind_assoc, pure_bind, Issuer.recoveryCredential]
  rw [hsteps, newNonRevocationCredential]
  cases signNonRevocation .dev i ctx blinded pubKey privKey L revKeyPriv draws with
  | error e => rfl
  | ok signature =>
    simp only [ok_bind, recoveryCredential_once]
    cases byDefault
    case true => rfl
    case false =>
      cases Issuer.recoveryCredential revReg L i revTailsAccessor
      all_goals rfl

theorem signCredentialWithRevoc_once {s : Signing C}
    (h : s.revTailsAccessor = .once revTailsAccessor) :
    signCredentialWithRevoc .dev env s revReg =
      Issuer.signCredentialWithRevoc env s.proverId s.blindedCredentialSecrets
        s.blindedCredentialSecretsCorrectnessProof s.credentialNonce s.credentialIssuanceNonce
        s.credentialValues s.credentialPubKey s.credentialPrivKey s.revIdx s.maxCredNum
        s.issuanceByDefault revReg s.revKeyPriv revTailsAccessor s.draws s.revocationDraws := by
  unfold signCredentialWithRevoc Issuer.signCredentialWithRevoc Signing.primary
  rw [h, Signing.credContext]
  dsimp only
  cases checkBlindedCredentialSecretsCorrectnessProof env s.blindedCredentialSecrets
    s.blindedCredentialSecretsCorrectnessProof s.credentialNonce s.credentialPubKey.pKey with
  | error e => rfl
  | ok _ =>
    simp only [ok_bind]
    cases newPrimaryCredential (genCredentialContext env s.proverId (some s.revIdx))
      s.credentialPubKey s.credentialPrivKey s.blindedCredentialSecrets s.credentialValues
      s.draws with
    | error e => rfl
    | ok primary =>
      simp only [ok_bind, newNonRevocationCredential_once]
      cases Issuer.newNonRevocationCredential s.revIdx
        (genCredentialContext env s.proverId (some s.revIdx)) s.blindedCredentialSecrets
        s.credentialPubKey s.credentialPrivKey s.maxCredNum s.issuanceByDefault revReg
        s.revKeyPriv revTailsAccessor s.revocationDraws with
      | error e => rfl
      | ok nonRevocation =>
        let proof := newSignatureCorrectnessProof env s.credentialPubKey.pKey
          s.credentialPrivKey.pKey primary.1 primary.2 s.credentialIssuanceNonce s.draws.r
        change (proof >>= _, _) = (proof.map _, _)
        cases proof
        all_goals rfl

end Once

end Issuer.InPlace
end Ursa
