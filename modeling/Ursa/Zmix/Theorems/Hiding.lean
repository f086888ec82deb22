import Ursa.Math.Hiding
import Ursa.Zmix.Theorems.Bbs
import Ursa.Zmix.Theorems.Ps

namespace Ursa

open UrsaCryptoResult ZmixResult StatDist
open Pedersen hiding commit

variable {C : Curve}

-- The blindings of the positions of the bases.
def drawnAt (draws : Fin n → FieldElement C) (i : ℕ) : FieldElement C :=
  if h : i < n then draws ⟨i, h⟩ else 0

theorem map_drawnAt_range (draws : Fin n → FieldElement C) :
    (List.range n).map (drawnAt draws) = List.ofFn draws := by
  refine List.ext_getElem (by simp) fun i hi _ => ?_
  have hlt : i < n := by simpa using hi
  simp [drawnAt, hlt]

theorem hiddenBlindings_none {Kind : Type} {error : ℕ → ℕ → Kind}
    {blindings : List (Option (FieldElement C))}
    (h : hiddenBlindings error messages revealed none = .ok blindings) :
    blindings = List.replicate (messages - revealed) none := by
  rw [hiddenBlindings, bind_eq_ok_iff] at h
  obtain ⟨hidden, hsub, h⟩ := h
  rw [usizeSub] at hsub
  split at hsub
  case isTrue =>
    obtain rfl := Except.ok.inj hsub
    exact (Except.ok.inj h).symm
  case isFalse => cases hsub

theorem ProverCommitting.blindings_of_finish {Kind G : Type} [AddCommGroup G]
    [Module (FieldElement C) G] {self : ProverCommitting C G} {committed : ProverCommitted C G}
    (h : (self.finish : ZmixResult Kind _) = .ok committed) :
    committed.blindings = self.blindings := by
  rw [finish, bind_eq_ok_iff] at h
  obtain ⟨commitment, -, h⟩ := h
  obtain rfl := Except.ok.inj h
  rfl

-- The proof of a committed value is made of the draws for the generators.
theorem ProverCommitted.Commits.genProof_ofFn {G : Type} [AddCommGroup G]
    [Module (FieldElement C) G] {committed : ProverCommitted C G} {gens : List G}
    {draws : Fin n → FieldElement C} (h : committed.Commits gens)
    (hblindings : committed.blindings = List.ofFn draws) (hgens : gens.length = n)
    (hsecrets : secrets.length = n) :
    committed.commitment = commitDraws gens n draws ∧
      ∀ c, committed.genProof c secrets =
        .ok ⟨commitDraws gens n draws, respond c (List.ofFn draws) secrets⟩ := by
  have hcommitment : committed.commitment = commitDraws gens n draws := by
    rw [h.commitment_eq, hblindings, commit_ofFn hgens]
  refine ⟨hcommitment, fun c => ?_⟩
  rw [h.genProof_eq_ok (hsecrets.trans hgens.symm), hcommitment, hblindings]

theorem map_revealed_congr {messages messages' : List (FieldElement C)} {revealed : IndexSet}
    (h : ∀ i ∈ revealed, messages[i]? = messages'[i]?) :
    (revealedIndices count revealed).map (messages.getD · 0) =
      (revealedIndices count revealed).map (messages'.getD · 0) := by
  refine List.map_congr_left fun i hi => ?_
  rw [List.getD_eq_getElem?_getD, h i (mem_revealedIndices.mp hi).right,
    List.getD_eq_getElem?_getD]

theorem Ps.Signature.of_verify {sig : Ps.Signature C} {vk : Ps.Verkey C}
    (h : sig.verify messages vk = .ok true) :
    vk.validate = .ok () ∧ messages.length = vk.yTilde.length ∧ sig.sigma1 ≠ 0 ∧
      sig.Signs messages vk := by
  have hcompat := h
  rw [verify, ite_false_eq_ok_true_iff, seq_eq_ok_iff, checkVerkeyAndMessagesCompat_eq_ok_iff]
    at hcompat
  obtain ⟨-, ⟨hvk, hlen⟩, -⟩ := hcompat
  obtain ⟨hne, hsigns⟩ := (verify_eq_ok_true_iff hvk hlen).mp h
  exact ⟨hvk, hlen.trans <| Ps.Verkey.validate_eq_ok_iff.mp hvk, (not_or.mp hne).left, hsigns⟩

namespace Ps.PoKOfSignature

open PoKOfSignatureProof (hiddenBases)

variable {sig sig' : Signature C} {vk : Verkey C} {messages messages' : List (FieldElement C)}
variable {revealed : IndexSet} {order : HashOrder ℕ}

-- Without blindings of the caller, the blinding of each base is the draw for its position.
theorem foldlM_commit_none (draws : ℕ → FieldElement C) (bases : List (OtherGroup C × ℕ))
    (committing : ProverCommitting C (OtherGroup C)) :
    ∃ gens, bases.foldlM (commit draws) (committing, List.replicate bases.length none) =
      .ok (⟨gens, committing.blindings ++ bases.map (draws ·.2)⟩, []) := by
  induction bases generalizing committing
  case nil => exact ⟨committing.gens, by rw [List.map_nil, List.append_nil]; rfl⟩
  case cons base bases hi =>
    obtain ⟨gens, hrun⟩ := hi (committing.commit base.1 none (draws base.2)).1
    refine ⟨gens, ?_⟩
    rw [List.map_cons, List.append_cons]
    exact hrun

theorem blindings_of_init {pok : PoKOfSignature C} {random : Random C}
    (hlen : messages.length = vk.yTilde.length) (hlt : ∀ i ∈ revealed, i < vk.yTilde.length)
    (h : init order sig vk messages none revealed random = .ok pok) :
    pok.pokVc.blindings =
      (List.range (vk.yTilde.length - revealed.card + 1)).map random.blinding := by
  simp only [init, bind_eq_ok_iff, pure_eq_ok_iff] at h
  obtain ⟨-, -, -, -, blindings, hblindings, -, -, bases, hbases, -, -, -, -, state, hrun,
    committed, hfinish, rfl⟩ := h
  obtain rfl := hiddenBlindings_none hblindings
  rw [mapM_nth_hiddenIndices 0 rfl] at hbases
  obtain rfl := Except.ok.inj hbases
  let bases := [vk.gTilde] ++ (hiddenIndices vk.yTilde.length revealed).map (vk.yTilde.getD · 0)
  have hcount : bases.length = vk.yTilde.length - revealed.card + 1 := by
    simp [bases, length_hiddenIndices hlt]
  obtain ⟨gens, hnone⟩ := foldlM_commit_none random.blinding bases.zipIdx ProverCommitting.new
  rw [List.length_zipIdx, hcount, List.replicate_succ, ← hlen] at hnone
  obtain rfl := Except.ok.inj <| hrun.symm.trans hnone
  have hpositions : bases.zipIdx.map Prod.snd = List.range bases.length := by
    rw [List.zipIdx_map_snd, List.range_eq_range']
  rw [ProverCommitting.blindings_of_finish hfinish, ← hcount, ← hpositions, List.map_map]
  rfl

-- The exponents `r` and `t`, and the blindings of the bases.
abbrev Draws (C : Curve) (n : ℕ) :=
  (FieldElement C × FieldElement C) × (Fin n → FieldElement C)

def Draws.random (draws : Draws C n) : Random C where
  r := draws.1.1
  t := draws.1.2
  blinding := drawnAt draws.2

-- A holder makes a proof. The challenge is a hash of what he commits to, or anything else that
-- depends on no more.
def present (order : HashOrder ℕ) (sig : Signature C) (vk : Verkey C)
    (messages : List (FieldElement C)) (revealed : IndexSet)
    (challenge : Signature C → OtherGroup C → OtherGroup C → FieldElement C) (random : Random C) :
    PSResult (PoKOfSignatureProof C) := do
  let pok ← init order sig vk messages none revealed random
  pok.genProof <| challenge pok.sig pok.j pok.pokVc.commitment

section Present

-- The secrets behind `J`.
def secretsOf (vk : Verkey C) (messages : List (FieldElement C)) (revealed : IndexSet)
    (t : FieldElement C) : List (FieldElement C) :=
  [t] ++ (hiddenIndices vk.yTilde.length revealed).map (messages.getD · 0)

theorem length_hiddenBases (hlt : ∀ i ∈ revealed, i < vk.yTilde.length) :
    (hiddenBases vk revealed).length = vk.yTilde.length - revealed.card + 1 := by
  simp [hiddenBases, length_hiddenIndices hlt]

theorem length_secretsOf (hlt : ∀ i ∈ revealed, i < vk.yTilde.length)
    (messages : List (FieldElement C)) (t : FieldElement C) :
    (secretsOf vk messages revealed t).length = vk.yTilde.length - revealed.card + 1 := by
  simp [secretsOf, length_hiddenIndices hlt]

theorem present_eq_ok (order : HashOrder ℕ) (sig : Signature C)
    (challenge : Signature C → OtherGroup C → OtherGroup C → FieldElement C)
    (hvk : vk.validate = .ok ()) (hlen : messages.length = vk.yTilde.length)
    (hlt : ∀ i ∈ revealed, i < vk.yTilde.length)
    (draws : Draws C (vk.yTilde.length - revealed.card + 1)) :
    ∃ pok : PoKOfSignature C, pok.Prepared sig vk messages revealed draws.random ∧
      let commitment := commitDraws (hiddenBases vk revealed) _ draws.2
      present order sig vk messages revealed challenge draws.random = .ok
        ⟨pok.sig, pok.j, commitment, respond (challenge pok.sig pok.j commitment)
          (List.ofFn draws.2) (secretsOf vk messages revealed draws.1.2)⟩ := by
  have hnone : ∀ b ∈ (none : Option (List (FieldElement C))),
      b.length = vk.yTilde.length - revealed.card := by simp
  obtain ⟨pok, hinit, hprepared⟩ := init_eq_ok sig draws.random order hvk hlen hlt hnone
  refine ⟨pok, hprepared, ?_⟩
  have hblindings : pok.pokVc.blindings = List.ofFn draws.2 := by
    rw [blindings_of_init hlen hlt hinit]
    exact map_drawnAt_range draws.2
  have hsecrets : pok.secrets = secretsOf vk messages revealed draws.1.2 := hprepared.secrets_eq
  obtain ⟨hcommitment, hproof⟩ := hprepared.vc.genProof_ofFn hblindings (length_hiddenBases hlt)
    (length_secretsOf hlt messages draws.1.2)
  rw [present, hinit, ok_bind, genProof, hcommitment, hsecrets, hproof]
  rfl

-- The draws of the other holder: `r` is divided by the exponent between the two signatures, `t` is
-- moved by what the hidden messages differ in, and the blindings follow the secrets.
theorem exists_equiv (order order' : HashOrder ℕ)
    (challenge : Signature C → OtherGroup C → OtherGroup C → FieldElement C)
    (hC : C.PrimeOrder) (hvk : vk.validate = .ok ()) (hg : vk.gTilde ≠ 0)
    (hsigns : sig.Signs messages vk) (hsigns' : sig'.Signs messages' vk) (hne : sig.sigma1 ≠ 0)
    (hne' : sig'.sigma1 ≠ 0) (hlen : messages.length = vk.yTilde.length)
    (hlen' : messages'.length = vk.yTilde.length) (hlt : ∀ i ∈ revealed, i < vk.yTilde.length)
    (hrevealed : ∀ i ∈ revealed, messages[i]? = messages'[i]?) :
    ∃ e : Draws C (vk.yTilde.length - revealed.card + 1) ≃
        Draws C (vk.yTilde.length - revealed.card + 1),
      ∀ draws, present order sig vk messages revealed challenge draws.random =
        present order' sig' vk messages' revealed challenge (e draws).random := by
  let n := vk.yTilde.length - revealed.card + 1
  let bases := hiddenBases vk revealed
  obtain ⟨k, hk⟩ := hC.exists_smul₁ sig'.sigma1 sig.sigma1 hne'
  obtain ⟨δ, hδ⟩ := hC.exists_smul₂ vk.gTilde
    (Pedersen.commit bases (secretsOf vk messages revealed 0) -
      Pedersen.commit bases (secretsOf vk messages' revealed 0)) hg
  have hk₀ : k ≠ 0 := by
    rintro rfl
    exact hne <| by rw [← hk, zero_smul]
  have hsecrets (messages : List (FieldElement C)) (t : FieldElement C) :
      Pedersen.commit bases (secretsOf vk messages revealed t) =
        t • vk.gTilde + Pedersen.commit bases (secretsOf vk messages revealed 0) := by
    simp only [bases, hiddenBases, secretsOf, List.cons_append, List.nil_append, commit_cons,
      zero_smul, zero_add]
  -- Both commit to the same `J`.
  have hj (t : FieldElement C) : Pedersen.commit bases (secretsOf vk messages revealed t) =
      Pedersen.commit bases (secretsOf vk messages' revealed (t + δ)) := by
    rw [hsecrets messages, hsecrets messages', add_smul, hδ]
    abel
  let hash (rt : FieldElement C × FieldElement C) (commitment : OtherGroup C) : FieldElement C :=
    challenge ⟨rt.1 • sig.sigma1, rt.1 • (sig.sigma2 + rt.2 • sig.sigma1)⟩
      (Pedersen.commit bases (secretsOf vk messages revealed rt.2)) commitment
  have hzero (t : FieldElement C) : commitDraws bases n (difference n
      (secretsOf vk messages revealed t) (secretsOf vk messages' revealed (t + δ))) = 0 :=
    commitDraws_difference (length_hiddenBases hlt) (length_secretsOf hlt messages t)
      (length_secretsOf hlt messages' (t + δ)) (hj t)
  let e : Draws C n ≃ Draws C n := Equiv.prodShear
    ((Equiv.mulRight₀ k hk₀).prodCongr (Equiv.addRight δ))
    fun rt => Sigma.shift (commitDraws bases n) (hash rt) _ (hzero rt.2)
  refine ⟨e, fun draws => ?_⟩
  obtain ⟨pok, hprepared, hpresent⟩ := present_eq_ok order sig challenge hvk hlen hlt draws
  obtain ⟨pok', hprepared', hpresent'⟩ := present_eq_ok order' sig' challenge hvk hlen' hlt
    (e draws)
  have hj' : pok.j = pok'.j := by
    rw [hprepared.j_eq, hprepared'.j_eq, hprepared.secrets_eq, hprepared'.secrets_eq]
    exact hj draws.1.2
  have hsigma1 : pok.sig.sigma1 = pok'.sig.sigma1 := by
    rw [hprepared.sig_eq, hprepared'.sig_eq]
    dsimp only
    rw [← hk, smul_smul]
    rfl
  have hsigma2 : pok.sig.sigma2 = pok'.sig.sigma2 := by
    refine hC.pair_injective hg ?_
    have hpair := hprepared.pair_eq hsigns hlen
    have hpair' := hprepared'.pair_eq hsigns' hlen'
    rw [hsigma1, hj', map_revealed_congr hrevealed] at hpair
    exact hpair.symm.trans hpair'
  have hsig : pok.sig = pok'.sig := congrArg₂ Signature.mk hsigma1 hsigma2
  have hcommitment : commitDraws bases n (e draws).2 = commitDraws bases n draws.2 :=
    Sigma.map_shift (hzero draws.1.2) ..
  have hhash : hash draws.1 (commitDraws bases n draws.2) =
      challenge pok.sig pok.j (commitDraws bases n draws.2) := by
    rw [hprepared.sig_eq, hprepared.j_eq, hprepared.secrets_eq]
    rfl
  have hrespond := respond_shift (length_secretsOf hlt messages draws.1.2)
    (length_secretsOf hlt messages' (draws.1.2 + δ))
    (hash draws.1 (commitDraws bases n draws.2)) draws.2
  rw [hhash] at hrespond
  refine hpresent.trans <| .trans ?_ hpresent'.symm
  rw [← hsig, ← hj', hcommitment, ← hrespond, ← hhash]
  rfl

-- A proof shows nothing of the holder but the revealed messages: two holders who agree on these
-- make proofs with the same distribution, whoever made the key.
theorem present_hides (hC : C.PrimeOrder) (hg : vk.gTilde ≠ 0)
    (hverify : sig.verify messages vk = .ok true) (hverify' : sig'.verify messages' vk = .ok true)
    (hlt : ∀ i ∈ revealed, i < vk.yTilde.length)
    (hrevealed : ∀ i ∈ revealed, messages[i]? = messages'[i]?) (order order' : HashOrder ℕ)
    (challenge : Signature C → OtherGroup C → OtherGroup C → FieldElement C) :
    let n := vk.yTilde.length - revealed.card + 1
    (∀ draws : Draws C n, ∃ proof,
      present order sig vk messages revealed challenge draws.random = .ok proof) ∧
    drawn (fun draws : Draws C n =>
        present order sig vk messages revealed challenge draws.random) =
      drawn fun draws : Draws C n =>
        present order' sig' vk messages' revealed challenge draws.random := by
  intro n
  obtain ⟨hvk, hlen, hne, hsigns⟩ := Signature.of_verify hverify
  obtain ⟨-, hlen', hne', hsigns'⟩ := Signature.of_verify hverify'
  constructor
  · intro draws
    obtain ⟨pok, -, hpresent⟩ := present_eq_ok order sig challenge hvk hlen hlt draws
    exact ⟨_, hpresent⟩
  · obtain ⟨e, he⟩ := exists_equiv order order' challenge hC hvk hg hsigns hsigns' hne hne' hlen
      hlen' hlt hrevealed
    exact drawn_eq_of_equiv e he

-- Two holders of different first messages reveal the second.
theorem present_hides_two :
    let hash (_ : List UInt8) := mod7 1
    let vk := (keygen hash hash 2 [] (mod7 3) fun i => mod7 (i + 1)).1
    let challenge (sig : Signature curveMod7) (j commitment : OtherGroup curveMod7) :=
      mod7 <| BigNumber.magnitude <|
        curveMod7.toBytes₁ sig.sigma1 ++ curveMod7.toBytes₂ j ++ curveMod7.toBytes₂ commitment
    drawn (fun draws : Draws curveMod7 2 => present ascending ⟨mod7 2, mod7 6⟩ vk [mod7 4, mod7 5]
        {1} challenge draws.random) =
      drawn fun draws : Draws curveMod7 2 => present ascending ⟨mod7 3, mod7 3⟩ vk
        [mod7 2, mod7 5] {1} challenge draws.random := by
  intro hash vk challenge
  have hC : curveMod7.PrimeOrder := Curve.residues_primeOrder ..
  have hg : vk.gTilde ≠ 0 := by decide
  have hverify : Signature.verify ⟨mod7 2, mod7 6⟩ [mod7 4, mod7 5] vk = .ok true := rfl
  have hverify' : Signature.verify ⟨mod7 3, mod7 3⟩ [mod7 2, mod7 5] vk = .ok true := rfl
  have hlt : ∀ i ∈ ({1} : IndexSet), i < vk.yTilde.length := by decide
  have hrevealed : ∀ i ∈ ({1} : IndexSet), [mod7 4, mod7 5][i]? = [mod7 2, mod7 5][i]? := by
    decide
  exact (present_hides hC hg hverify hverify' hlt hrevealed ascending ascending challenge).right

end Present

end Ps.PoKOfSignature

namespace Bbs.PoKOfSignature

variable {gen : Generators C} {vk : PublicKey C} {sig sig' : Signature C} {revealed : IndexSet}
variable {messages messages' : List (FieldElement C)}

theorem Hidden.blindings_of_foldlM {state state' : Hidden C} {draws : ℕ → FieldElement C}
    {is : List ℕ}
    (h : is.foldlM (Hidden.commit vk messages draws) state = .ok state')
    (hnone : state.blindings = List.replicate is.length none) :
    state'.committing.blindings = state.committing.blindings ++ is.map draws := by
  induction is generalizing state
  case nil =>
    obtain rfl := Except.ok.inj h
    exact (List.append_nil _).symm
  case cons i is hi =>
    rw [List.foldlM_cons, bind_eq_ok_iff] at h
    obtain ⟨next, hnext, hrun⟩ := h
    simp only [Hidden.commit, bind_eq_ok_iff, pure_eq_ok_iff, hnone, List.length_cons,
      List.replicate_succ, removeFirst, Except.ok.injEq] at hnext
    obtain ⟨base, -, removed, rfl, message, -, rfl⟩ := hnext
    rw [hi hrun rfl, List.map_cons, List.append_cons]
    simp [ProverCommitting.commit]

theorem blindings_of_init {pok : PoKOfSignature C} {random : Random C} {order : HashOrder ℕ}
    (hlen : messages.length = vk.messageCount) (hlt : ∀ i ∈ revealed, i < vk.messageCount)
    (h : init order gen sig vk messages none revealed random = .ok pok) :
    pok.pokVc1.blindings = [random.aPrime, random.h0₁] ∧
      pok.pokVc2.blindings = [random.d, random.h0₂] ++
        (hiddenIndices vk.messageCount revealed).map random.message := by
  simp only [init, ite_fail_eq_ok_iff, bind_eq_ok_iff, pure_eq_ok_iff] at h
  obtain ⟨-, -, -, blindings, hblindings, b, -, pokVc1, hfinish1, state, hrun, pokVc2, hfinish2,
    rfl⟩ := h
  obtain rfl := hiddenBlindings_none hblindings
  rw [hlen, ← length_hiddenIndices hlt] at hrun
  constructor
  · rw [ProverCommitting.blindings_of_finish hfinish1]
    rfl
  · rw [ProverCommitting.blindings_of_finish hfinish2, Hidden.blindings_of_foldlM hrun rfl]
    rfl

-- The exponents `r1`, which is not zero, and `r2`, and the blindings of the two commitments.
abbrev Exponents (C : Curve) :=
  (FieldElement C)ˣ × FieldElement C

abbrev Blindings (C : Curve) (n : ℕ) :=
  (Fin 2 → FieldElement C) × (Fin n → FieldElement C)

abbrev Draws (C : Curve) (n : ℕ) :=
  Exponents C × Blindings C n

def Draws.random (vk : PublicKey C) (revealed : IndexSet) (draws : Draws C n) : Random C where
  r1 := draws.1.1
  r2 := draws.1.2
  aPrime := draws.2.1 0
  h0₁ := draws.2.1 1
  d := drawnAt draws.2.2 0
  h0₂ := drawnAt draws.2.2 1
  message i := drawnAt draws.2.2 <| (hiddenIndices vk.messageCount revealed).idxOf i + 2

-- A holder makes a proof. The challenge is a hash of the points of the randomised signature and of
-- the two commitments, or anything else that depends on no more.
def present (order : HashOrder ℕ) (gen : Generators C) (sig : Signature C) (vk : PublicKey C)
    (messages : List (FieldElement C)) (revealed : IndexSet)
    (challenge : PointG1 C → PointG1 C → PointG1 C → PointG1 C → PointG1 C → FieldElement C)
    (random : Random C) : BBSResult (PoKOfSignatureProof C) := do
  let pok ← init order gen sig vk messages none revealed random
  pok.genProof <|
    challenge pok.aPrime pok.aBar pok.d pok.pokVc1.commitment pok.pokVc2.commitment

section Present

theorem map_drawnAt_hidden (hlt : ∀ i ∈ revealed, i < vk.messageCount)
    (draws : Fin (vk.messageCount - revealed.card + 2) → FieldElement C) :
    [drawnAt draws 0, drawnAt draws 1] ++ (hiddenIndices vk.messageCount revealed).map
        (fun i => drawnAt draws <| (hiddenIndices vk.messageCount revealed).idxOf i + 2) =
      List.ofFn draws := by
  have hcount := length_hiddenIndices hlt
  have hmap : (hiddenIndices vk.messageCount revealed).map
      (fun i => drawnAt draws <| (hiddenIndices vk.messageCount revealed).idxOf i + 2) =
        (List.range (vk.messageCount - revealed.card)).map fun i => drawnAt draws (i + 2) := by
    refine List.ext_getElem (by simp [hcount]) fun i hi _ => ?_
    rw [List.length_map] at hi
    simp [nodup_hiddenIndices.idxOf_getElem i hi]
  rw [hmap, ← map_drawnAt_range, List.range_succ_eq_map, List.range_succ_eq_map]
  simp

-- The bases of the second commitment, with `d` as the first of them.
def hiddenBases (vk : PublicKey C) (revealed : IndexSet) (d : PointG1 C) : List (PointG1 C) :=
  [d, vk.h0] ++ (hiddenIndices vk.messageCount revealed).map (vk.h.getD · 0)

theorem length_hiddenBases (hlt : ∀ i ∈ revealed, i < vk.messageCount) (d : PointG1 C) :
    (hiddenBases vk revealed d).length = vk.messageCount - revealed.card + 2 := by
  simp [hiddenBases, length_hiddenIndices hlt]

theorem Prepared.length_secrets2 {pok : PoKOfSignature C} {random : Random C}
    (h : pok.Prepared gen sig vk messages revealed random)
    (hlt : ∀ i ∈ revealed, i < vk.messageCount) :
    pok.secrets2.length = vk.messageCount - revealed.card + 2 := by
  simp [h.secrets2, length_hiddenIndices hlt]

-- What `init` prepares besides the commitments depends on the two exponents only.
theorem Prepared.congr {pok pok' : PoKOfSignature C} {random random' : Random C}
    (h : pok.Prepared gen sig vk messages revealed random)
    (h' : pok'.Prepared gen sig vk messages revealed random') (hr1 : random.r1 = random'.r1)
    (hr2 : random.r2 = random'.r2) :
    pok.aPrime = pok'.aPrime ∧ pok.aBar = pok'.aBar ∧ pok.d = pok'.d ∧
      pok.secrets1 = pok'.secrets1 ∧ pok.secrets2 = pok'.secrets2 := by
  have haPrime : pok.aPrime = pok'.aPrime := by rw [h.aPrime, h'.aPrime, hr1]
  refine ⟨haPrime, ?_, ?_, ?_, ?_⟩
  · rw [h.aBar, h'.aBar, haPrime, hr1]
  · rw [h.d, h'.d, hr1, hr2]
  · rw [h.secrets1, h'.secrets1, hr2]
  · rw [h.secrets2, h'.secrets2, hr1, hr2]

theorem present_eq_ok (order : HashOrder ℕ) (gen : Generators C) (sig : Signature C)
    (challenge : PointG1 C → PointG1 C → PointG1 C → PointG1 C → PointG1 C → FieldElement C)
    (hlen : messages.length = vk.messageCount) (hlt : ∀ i ∈ revealed, i < vk.messageCount)
    (r : Exponents C) :
    ∃ pok : PoKOfSignature C, (∃ random, pok.Prepared gen sig vk messages revealed random ∧
        random.r1 = r.1 ∧ random.r2 = r.2) ∧
      ∀ b : Blindings C (vk.messageCount - revealed.card + 2),
        let commitment1 := commitDraws [pok.aPrime, vk.h0] 2 b.1
        let commitment2 := commitDraws (hiddenBases vk revealed pok.d) _ b.2
        let c := challenge pok.aPrime pok.aBar pok.d commitment1 commitment2
        present order gen sig vk messages revealed challenge (Draws.random vk revealed (r, b)) =
          .ok ⟨pok.aPrime, pok.aBar, pok.d,
            ⟨commitment1, respond c (List.ofFn b.1) pok.secrets1⟩,
            ⟨commitment2, respond c (List.ofFn b.2) pok.secrets2⟩⟩ := by
  have hnone : ∀ b ∈ (none : Option (List (FieldElement C))),
      b.length = vk.messageCount - revealed.card := by simp
  let draws : Draws C (vk.messageCount - revealed.card + 2) := (r, 0)
  obtain ⟨pok, -, hprepared⟩ :=
    init_eq_ok gen sig (draws.random vk revealed) order hlen hlt hnone
  refine ⟨pok, ⟨_, hprepared, rfl, rfl⟩, fun b => ?_⟩
  obtain ⟨pok', hinit, hprepared'⟩ :=
    init_eq_ok gen sig (Draws.random vk revealed (r, b)) order hlen hlt hnone
  obtain ⟨haPrime, haBar, hd, hsecrets1, hsecrets2⟩ := hprepared.congr hprepared' rfl rfl
  obtain ⟨hblindings1, hblindings2⟩ := blindings_of_init hlen hlt hinit
  replace hblindings1 : pok'.pokVc1.blindings = List.ofFn b.1 := by
    rw [hblindings1, List.ofFn_succ, List.ofFn_succ, List.ofFn_zero]
    rfl
  replace hblindings2 : pok'.pokVc2.blindings = List.ofFn b.2 :=
    hblindings2.trans <| map_drawnAt_hidden hlt b.2
  obtain ⟨hcommitment1, hproof1⟩ := hprepared'.vc1.genProof_ofFn hblindings1 rfl
    (congrArg List.length hprepared'.secrets1)
  obtain ⟨hcommitment2, hproof2⟩ := hprepared'.vc2.genProof_ofFn hblindings2
    (length_hiddenBases hlt pok'.d) (hprepared'.length_secrets2 hlt)
  rw [present, hinit, ok_bind, genProof, hcommitment1, hcommitment2, hproof1, hproof2, haPrime,
    haBar, hd, hsecrets1, hsecrets2]
  rfl

-- Two holders' randomised signatures are the same points when their exponents are related by `k`
-- and `δ`.
theorem Prepared.same_start {pok pok' : PoKOfSignature C} {random random' : Random C}
    {k δ : FieldElement C} (hC : C.PrimeOrder) (hg : gen.g2 ≠ 0)
    (h : pok.Prepared gen sig vk messages revealed random)
    (h' : pok'.Prepared gen sig' vk messages' revealed random')
    (hsigns : sig.Signs gen messages vk) (hsigns' : sig'.Signs gen messages' vk)
    (hk : k • sig'.a = sig.a)
    (hδ : δ • vk.h0 = k • vk.signed gen sig'.s messages' - vk.signed gen sig.s messages)
    (hr1 : random'.r1 = random.r1 * k) (hr2 : random'.r2 = random.r2 + random.r1 * δ) :
    pok.aPrime = pok'.aPrime ∧ pok.aBar = pok'.aBar ∧ pok.d = pok'.d := by
  have haPrime : pok.aPrime = pok'.aPrime := by
    rw [h.aPrime, h'.aPrime, hr1, mul_smul, hk]
  refine ⟨haPrime, ?_, ?_⟩
  · refine hC.pair_injective hg ?_
    calc C.pair pok.aBar gen.g2
      _ = C.pair pok.aPrime vk.w := (h.pair_eq hsigns).symm
      _ = C.pair pok'.aPrime vk.w := by rw [haPrime]
      _ = C.pair pok'.aBar gen.g2 := h'.pair_eq hsigns'
  · rw [h.d, h'.d, hr1, hr2, neg_add, add_smul, neg_smul (random.r1 * δ), mul_smul _ δ, hδ]
    module

-- The draws of the other holder: the exponents of the randomised signature so that the points stay
-- the same, and the blindings follow the secrets.
theorem exists_equiv (order order' : HashOrder ℕ)
    (challenge : PointG1 C → PointG1 C → PointG1 C → PointG1 C → PointG1 C → FieldElement C)
    (hC : C.PrimeOrder) (hg : gen.g2 ≠ 0) (hh0 : vk.h0 ≠ 0)
    (hsigns : sig.Signs gen messages vk) (hsigns' : sig'.Signs gen messages' vk)
    (hne : sig.a ≠ 0) (hne' : sig'.a ≠ 0) (hlen : messages.length = vk.messageCount)
    (hlen' : messages'.length = vk.messageCount) (hlt : ∀ i ∈ revealed, i < vk.messageCount)
    (hrevealed : ∀ i ∈ revealed, messages[i]? = messages'[i]?) :
    ∃ e : Draws C (vk.messageCount - revealed.card + 2) ≃
        Draws C (vk.messageCount - revealed.card + 2),
      ∀ draws, present order gen sig vk messages revealed challenge (draws.random vk revealed) =
        present order' gen sig' vk messages' revealed challenge ((e draws).random vk revealed) := by
  let n := vk.messageCount - revealed.card + 2
  obtain ⟨k, hk⟩ := hC.exists_smul₁ sig'.a sig.a hne'
  obtain ⟨δ, hδ⟩ := hC.exists_smul₁ vk.h0
    (k • vk.signed gen sig'.s messages' - vk.signed gen sig.s messages) hh0
  have hk₀ : k ≠ 0 := by
    rintro rfl
    exact hne <| by rw [← hk, zero_smul]
  let other : Exponents C ≃ Exponents C :=
    Equiv.prodShear (Equiv.mulRight (Units.mk0 k hk₀)) fun r1 => Equiv.addRight (r1 * δ)
  have hshift (r : Exponents C) :
      ∃ e : Blindings C n ≃ Blindings C n, ∀ b,
        present order gen sig vk messages revealed challenge (Draws.random vk revealed (r, b)) =
          present order' gen sig' vk messages' revealed challenge
            (Draws.random vk revealed (other r, e b)) := by
    obtain ⟨pok, ⟨random, hprepared, hr1, hr2⟩, hpresent⟩ :=
      present_eq_ok order gen sig challenge hlen hlt r
    obtain ⟨pok', ⟨random', hprepared', hr1', hr2'⟩, hpresent'⟩ :=
      present_eq_ok order' gen sig' challenge hlen' hlt (other r)
    obtain ⟨haPrime, haBar, hd⟩ := hprepared.same_start hC hg hprepared' hsigns hsigns' hk hδ
      (by rw [hr1', hr1]; rfl) (by rw [hr2', hr2, hr1]; rfl)
    have hunit (r : Exponents C) : (r.1 : FieldElement C) ≠ 0 := r.1.ne_zero
    have hcommit1 : Pedersen.commit [pok.aPrime, vk.h0] pok.secrets1 =
        Pedersen.commit [pok.aPrime, vk.h0] pok'.secrets1 := by
      rw [← hprepared.sub_eq_commit, haPrime, ← hprepared'.sub_eq_commit, haBar, hd]
    have hcommit2 : Pedersen.commit (hiddenBases vk revealed pok.d) pok.secrets2 =
        Pedersen.commit (hiddenBases vk revealed pok.d) pok'.secrets2 := by
      have hleft := hprepared.commit_secrets2_eq (hr1 ▸ hunit r) hlen
      have hright := hprepared'.commit_secrets2_eq (hr1' ▸ hunit (other r)) hlen'
      rw [← hd, ← map_revealed_congr hrevealed] at hright
      exact hleft.trans hright.symm
    have hlen1 : pok.secrets1.length = 2 := by rw [hprepared.secrets1]; rfl
    have hlen1' : pok'.secrets1.length = 2 := by rw [hprepared'.secrets1]; rfl
    have hlen2 : pok.secrets2.length = n := hprepared.length_secrets2 hlt
    have hlen2' : pok'.secrets2.length = n := hprepared'.length_secrets2 hlt
    let φ := (commitDraws [pok.aPrime, vk.h0] 2).prodMap
      (commitDraws (F := FieldElement C) (hiddenBases vk revealed pok.d) n)
    let hash (t : PointG1 C × PointG1 C) : FieldElement C :=
      challenge pok.aPrime pok.aBar pok.d t.1 t.2
    have hzero : φ (difference 2 pok.secrets1 pok'.secrets1,
        difference n pok.secrets2 pok'.secrets2) = 0 :=
      Prod.ext (commitDraws_difference rfl hlen1 hlen1' hcommit1)
        (commitDraws_difference (length_hiddenBases hlt pok.d) hlen2 hlen2' hcommit2)
    refine ⟨Sigma.shift φ hash _ hzero, fun b => ?_⟩
    have hcommitment : φ (Sigma.shift φ hash _ hzero b) = φ b := Sigma.map_shift hzero ..
    have hcommitment1 := congrArg Prod.fst hcommitment
    have hcommitment2 := congrArg Prod.snd hcommitment
    dsimp only [φ, LinearMap.prodMap_apply] at hcommitment1 hcommitment2
    refine (hpresent b).trans <| .trans ?_ (hpresent' _).symm
    rw [← haPrime, ← haBar, ← hd, hcommitment1, hcommitment2]
    have hrespond1 := respond_shift hlen1 hlen1' (hash (φ b)) b.1
    have hrespond2 := respond_shift hlen2 hlen2' (hash (φ b)) b.2
    exact congrArg₂ (fun responses1 responses2 => Except.ok (PoKOfSignatureProof.mk pok.aPrime
      pok.aBar pok.d ⟨_, responses1⟩ ⟨_, responses2⟩)) hrespond1.symm hrespond2.symm
  choose e he using hshift
  exact ⟨Equiv.prodShear other e, fun draws => he draws.1 draws.2⟩

-- A proof shows nothing of the holder but the revealed messages: two holders who agree on these
-- make proofs with the same distribution, whoever made the key. The signature with `A` at the
-- identity is left out, which is blinded to itself.
theorem present_hides_holder (hC : C.PrimeOrder) (hg : gen.g2 ≠ 0) (hvk : vk.validate = .ok ())
    (hverify : sig.verify gen messages vk = .ok true)
    (hverify' : sig'.verify gen messages' vk = .ok true) (hne : sig.a ≠ 0) (hne' : sig'.a ≠ 0)
    (hlt : ∀ i ∈ revealed, i < vk.messageCount)
    (hrevealed : ∀ i ∈ revealed, messages[i]? = messages'[i]?) (order order' : HashOrder ℕ)
    (challenge : PointG1 C → PointG1 C → PointG1 C → PointG1 C → PointG1 C → FieldElement C) :
    let n := vk.messageCount - revealed.card + 2
    (∀ draws : Draws C n, ∃ proof, present order gen sig vk messages revealed challenge
      (draws.random vk revealed) = .ok proof) ∧
    drawn (fun draws : Draws C n =>
        present order gen sig vk messages revealed challenge (draws.random vk revealed)) =
      drawn fun draws : Draws C n =>
        present order' gen sig' vk messages' revealed challenge (draws.random vk revealed) := by
  intro n
  obtain ⟨hlen, hsigns⟩ := Signature.verify_eq_ok_true_iff.mp hverify
  obtain ⟨hlen', hsigns'⟩ := Signature.verify_eq_ok_true_iff.mp hverify'
  have hh0 : vk.h0 ≠ 0 := (PublicKey.validate_eq_ok_iff.mp hvk).left
  constructor
  · intro draws
    obtain ⟨pok, -, hpresent⟩ := present_eq_ok order gen sig challenge hlen hlt draws.1
    exact ⟨_, hpresent draws.2⟩
  · obtain ⟨e, he⟩ := exists_equiv order order' challenge hC hg hh0 hsigns hsigns' hne hne' hlen
      hlen' hlt hrevealed
    exact drawn_eq_of_equiv e he

-- Two holders of different first messages reveal the second.
theorem present_hides_holder_two :
    let gen := PoKOfSignatureProof.sampleGenerators
    let vk := PoKOfSignatureProof.sampleKey
    let sig : Signature curveMod7 := ⟨mod7 3, mod7 1, mod7 1⟩
    let sig' : Signature curveMod7 := ⟨mod7 5, mod7 1, mod7 6⟩
    let challenge (aPrime aBar d commitment1 commitment2 : PointG1 curveMod7) :=
      mod7 <| BigNumber.magnitude <|
        [aPrime, aBar, d, commitment1, commitment2].flatMap curveMod7.toBytes₁
    drawn (fun draws : Draws curveMod7 3 =>
        present ascending gen sig vk [mod7 1, mod7 6] {1} challenge (draws.random vk {1})) =
      drawn fun draws : Draws curveMod7 3 =>
        present ascending gen sig' vk [mod7 3, mod7 6] {1} challenge (draws.random vk {1}) := by
  intro gen vk sig sig' challenge
  have hC : curveMod7.PrimeOrder := Curve.residues_primeOrder ..
  have hg : gen.g2 ≠ 0 := by decide
  have hverify : sig.verify gen [mod7 1, mod7 6] vk = .ok true :=
    Signature.verify_eq_ok_true_iff.mpr ⟨rfl, rfl⟩
  have hverify' : sig'.verify gen [mod7 3, mod7 6] vk = .ok true :=
    Signature.verify_eq_ok_true_iff.mpr ⟨rfl, rfl⟩
  have hlt : ∀ i ∈ ({1} : IndexSet), i < vk.messageCount := by decide
  have hrevealed : ∀ i ∈ ({1} : IndexSet), [mod7 1, mod7 6][i]? = [mod7 3, mod7 6][i]? := by
    decide
  exact (present_hides_holder hC hg rfl hverify hverify' (by decide) (by decide) hlt hrevealed
    ascending ascending challenge).right

end Present
end Bbs.PoKOfSignature
end Ursa
