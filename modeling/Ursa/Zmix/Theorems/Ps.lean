import Ursa.Zmix.Ps
import Ursa.Zmix.Theorems.Disclosure

namespace Ursa.Ps

open UrsaCryptoResult ZmixResult
open Pedersen hiding commit

variable {C : Curve} {vk : Verkey C} {sk : Sigkey C} {messages : List (FieldElement C)}

theorem Verkey.validate_eq_ok_iff : vk.validate = .ok () ↔ vk.y.length = vk.yTilde.length := by
  rw [validate, ite_fail_eq_ok_iff, not_not]
  exact and_iff_left rfl

theorem isOne_ate2Pairing_neg {g1 h1 : SignatureGroup C} {g2 h2 : OtherGroup C} :
    GT.isOne (ate2Pairing g1 g2 (-h1) h2) = true ↔ C.pair g1 g2 = C.pair h1 h2 :=
  GT.isOne_ate2Pairing_neg

namespace Signature

variable {sig : Signature C}

theorem checkVerkeyAndMessagesCompat_eq_ok_iff :
    checkVerkeyAndMessagesCompat messages vk = .ok () ↔
      vk.validate = .ok () ∧ messages.length = vk.y.length := by
  rw [checkVerkeyAndMessagesCompat, seq_eq_ok_iff, ite_fail_eq_ok_iff, not_not]
  exact and_congr_right fun _ => and_iff_left rfl

-- The equation that a signature is verified with.
def Signs (sig : Signature C) (messages : List (FieldElement C)) (vk : Verkey C) : Prop :=
  C.pair sig.sigma1 (vk.xTilde + Pedersen.commit vk.yTilde messages) = C.pair sig.sigma2 vk.gTilde

theorem verify_eq_ok_true_iff (hvk : vk.validate = .ok ())
    (hlen : messages.length = vk.y.length) :
    sig.verify messages vk = .ok true ↔
      ¬(sig.sigma1 = 0 ∨ sig.sigma2 = 0) ∧ sig.Signs messages vk := by
  have hlen' : vk.yTilde.length = messages.length := by
    rw [hlen, Verkey.validate_eq_ok_iff.mp hvk]
  have hpoints : (List.range messages.length).mapM (nth vk.yTilde) =
      (.ok vk.yTilde : PSResult _) :=
    mapM_range_eq_ok hlen' fun i hi => nth_eq_getElem hi
  have hproduct : multiScalarMul ([vk.xTilde] ++ vk.yTilde) ([1] ++ messages) =
      some (vk.xTilde + Pedersen.commit vk.yTilde messages) := by
    rw [multiScalarMul_of_length_eq (by simp [hlen'])]
    simp only [List.cons_append, List.nil_append, commit_cons, one_smul]
  rw [verify, ite_false_eq_ok_true_iff, seq_eq_ok_iff, checkVerkeyAndMessagesCompat_eq_ok_iff,
    hpoints, ok_bind, hproduct, unwrap_some, ok_bind, pure_eq_ok_iff, isOne_ate2Pairing_neg]
  exact and_congr_right fun _ => and_iff_right ⟨hvk, hlen⟩

theorem sign_eq_ok {commitment : Option (SignatureGroup C)} {u : FieldElement C}
    (h : j + messages.length = vk.y.length) :
    sign messages sk vk commitment u =
      .ok ⟨u • vk.g, u • (sk.x + Pedersen.commit (vk.y.drop j) messages + commitment.getD 0)⟩ := by
  have hlen : (vk.y.drop j).length = messages.length := by
    rw [List.length_drop]
    omega
  have hoffset : vk.y.length - messages.length = j := by omega
  rw [sign, usizeSub, if_pos (by omega), ok_bind, hoffset, mapM_nth_drop h, ok_bind,
    multiScalarMul_of_length_eq hlen, unwrap_some, ok_bind]
  cases commitment with
  | none => rw [Option.getD_none, add_zero]; rfl
  | some _ => rfl

end Signature

-- The secret and the public generators have the discrete logarithms `x` and `ys` in common.
structure Verkey.Generated (vk : Verkey C) (sk : Sigkey C) (x : FieldElement C)
    (ys : List (FieldElement C)) : Prop where
  sk_eq : sk.x = x • vk.g
  xTilde_eq : vk.xTilde = x • vk.gTilde
  y_eq : vk.y = ys.map (· • vk.g)
  yTilde_eq : vk.yTilde = ys.map (· • vk.gTilde)

theorem keygen_generated (hash₁ : List UInt8 → SignatureGroup C) (hash₂ : List UInt8 → OtherGroup C)
    (k : ℕ) (label : List UInt8) (x : FieldElement C) (y : ℕ → FieldElement C) :
    let keys := keygen hash₁ hash₂ k label x y
    keys.1.Generated keys.2 x ((List.range k).map y) where
  sk_eq := rfl
  xTilde_eq := rfl
  y_eq := by
    rw [List.map_map]
    rfl
  yTilde_eq := by
    rw [List.map_map]
    rfl

namespace Verkey.Generated

variable {x : FieldElement C} {ys : List (FieldElement C)}

theorem validate (h : vk.Generated sk x ys) : vk.validate = .ok () := by
  rw [Verkey.validate_eq_ok_iff, h.y_eq, h.yTilde_eq, List.length_map, List.length_map]

-- A signature over the exponent `u`.
theorem signs (h : vk.Generated sk x ys) (u : FieldElement C) :
    Signature.Signs ⟨u • vk.g, u • (sk.x + Pedersen.commit vk.y messages)⟩ messages vk := by
  rw [Signature.Signs, h.sk_eq, h.xTilde_eq, h.y_eq, h.yTilde_eq, commit_smul, commit_smul,
    ← add_smul, ← add_smul, C.pair_smul_right, C.pair_smul_left, C.pair_smul_left,
    C.pair_smul_left, smul_comm]

end Verkey.Generated

namespace Signature

-- The first `j` messages are committed to, and signed blindly if there are any.
def issue (messages : List (FieldElement C)) (j : ℕ) (blinding : FieldElement C) (sk : Sigkey C)
    (vk : Verkey C) (u : FieldElement C) : PSResult (Signature C) :=
  if j = 0 then new messages sk vk u
  else do
    let commitment := blinding • vk.g + Pedersen.commit (vk.y.take j) (messages.take j)
    let sig ← newWithCommittedMessages commitment (messages.drop j) sk vk u
    pure <| sig.getUnblindedSignature blinding

theorem issue_eq_ok {x blinding u : FieldElement C} {ys : List (FieldElement C)}
    (h : vk.Generated sk x ys) (hlen : messages.length = vk.y.length) (hj : j ≤ vk.y.length) :
    issue messages j blinding sk vk u =
      .ok ⟨u • vk.g, u • (sk.x + Pedersen.commit vk.y messages)⟩ := by
  unfold issue
  split
  case isTrue =>
    have hcompat : checkVerkeyAndMessagesCompat messages vk = .ok () :=
      checkVerkeyAndMessagesCompat_eq_ok_iff.mpr ⟨h.validate, hlen⟩
    rw [new, hcompat, ok_bind, sign_eq_ok (by rw [hlen, Nat.zero_add]), List.drop_zero,
      Option.getD_none, add_zero]
  case isFalse hne =>
    have hdrop : j + (messages.drop j).length = vk.y.length := by
      rw [List.length_drop, hlen, Nat.add_sub_cancel' hj]
    have hlt : ¬vk.y.length ≤ (messages.drop j).length := by omega
    have hunblinded : u • (sk.x + Pedersen.commit (vk.y.drop j) (messages.drop j) +
        (blinding • vk.g + Pedersen.commit (vk.y.take j) (messages.take j))) -
          blinding • u • vk.g = u • (sk.x + Pedersen.commit vk.y messages) := by
      rw [← commit_take_add_drop hlen.symm j]
      module
    dsimp only
    rw [newWithCommittedMessages, h.validate, ok_bind, if_neg hlt, sign_eq_ok hdrop, ok_bind,
      getUnblindedSignature, Option.getD_some, hunblinded]
    rfl

end Signature

namespace PoKOfSignatureProof

variable {proof : PoKOfSignatureProof C} {revealed : IndexMap (FieldElement C)}
variable {order : HashOrder ℕ} {c : FieldElement C}

def hiddenBases (vk : Verkey C) (revealed : IndexSet) : List (OtherGroup C) :=
  [vk.gTilde] ++ (hiddenIndices vk.yTilde.length revealed).map (vk.yTilde.getD · 0)

-- What the verifier adds to `J` for the revealed messages.
def disclosed (vk : Verkey C) (revealed : IndexMap (FieldElement C)) : OtherGroup C :=
  Pedersen.commit ((revealedIndices vk.yTilde.length revealed.keys).map (vk.yTilde.getD · 0))
    ((revealedIndices vk.yTilde.length revealed.keys).map fun i => (revealed.lookup i).getD 0)

-- The walk through the map is in any order.
theorem commit_iter (hlt : ∀ i ∈ revealed.keys, i < vk.yTilde.length) :
    Pedersen.commit ((order.iter revealed.keys).map (vk.yTilde.getD · 0))
      ((order.iter revealed.keys).map fun i => (revealed.lookup i).getD 0) =
        disclosed vk revealed := by
  rw [disclosed, commit_map, commit_map]
  exact ((iter_perm_revealedIndices order hlt).map _).sum_eq

theorem addRevealed_eq_ok (hlt : ∀ i ∈ revealed.keys, i < vk.yTilde.length) :
    proof.addRevealed order vk revealed = .ok (proof.j + disclosed vk revealed) := by
  unfold addRevealed
  split
  case isTrue hempty =>
    have hnone : revealedIndices vk.yTilde.length ∅ = [] := by simp [revealedIndices]
    rw [disclosed, hempty, hnone, List.map_nil, commit_nil, add_zero]
    rfl
  case isFalse =>
    have hb : (order.iter revealed.keys).mapM (nth vk.yTilde) =
        (.ok ((order.iter revealed.keys).map (vk.yTilde.getD · 0)) : PSResult _) :=
      mapM_nth 0 fun i hi => hlt i <| (order.mem_iter _ _).mp hi
    have he : (order.iter revealed.keys).mapM (fun i => unwrap (revealed.lookup i)) =
        (.ok ((order.iter revealed.keys).map fun i => (revealed.lookup i).getD 0) : PSResult _) :=
      mapM_unwrap_lookup fun i hi => (order.mem_iter _ _).mp hi
    rw [hb, ok_bind, he, ok_bind, multiScalarMul_of_length_eq (by simp), unwrap_some, ok_bind,
      commit_iter hlt]
    rfl

structure Accepts (proof : PoKOfSignatureProof C) (vk : Verkey C)
    (revealed : IndexMap (FieldElement C)) (c : FieldElement C) : Prop where
  validate : vk.validate = .ok ()
  sigma_ne : ¬(proof.sig.sigma1 = 0 ∨ proof.sig.sigma2 = 0)
  vc : proof.proofVc.verify (hiddenBases vk revealed.keys) proof.j c = .ok true
  pair_eq : C.pair proof.sig.sigma1 (proof.j + disclosed vk revealed + vk.xTilde) =
    C.pair proof.sig.sigma2 vk.gTilde

theorem verify_eq_ok_true_iff (hlt : ∀ i ∈ revealed.keys, i < vk.yTilde.length) :
    proof.verify order vk revealed c = .ok true ↔ proof.Accepts vk revealed c := by
  have hcount : usizeSub vk.yTilde.length revealed.keys.card =
      (.ok (vk.yTilde.length - revealed.keys.card) : PSResult _) := if_pos (card_le hlt)
  rw [verify, seq_eq_ok_iff, ite_false_eq_ok_true_iff, hcount, ok_bind,
    mapM_nth_hiddenIndices 0 rfl, ok_bind, guard_eq_ok_true_iff, mapKind_eq_ok_iff,
    addRevealed_eq_ok hlt, ok_bind, pure_eq_ok_iff, isOne_ate2Pairing_neg]
  constructor
  case mp =>
    rintro ⟨h₁, h₂, h₃, h₄⟩
    exact ⟨h₁, h₂, h₃, h₄⟩
  case mpr => exact fun h => ⟨h.validate, h.sigma_ne, h.vc, h.pair_eq⟩

section Extract

variable {proof' : PoKOfSignatureProof C} {c' : FieldElement C}

-- The exponents behind `J`: the one that randomises the signature, and the hidden messages.
structure Extracted (C : Curve) where
  t : FieldElement C
  hidden : List (FieldElement C)

def extract (proof proof' : PoKOfSignatureProof C) (c c' : FieldElement C) : Extracted C :=
  let secrets := Pedersen.extract c c' proof.proofVc.responses proof'.proofVc.responses
  { t := secrets.getD 0 0
    hidden := secrets.drop 1 }

-- The two proofs start from the same signature, the same `J` and the same commitment.
structure SameStart (proof proof' : PoKOfSignatureProof C) : Prop where
  sig : proof.sig = proof'.sig
  j : proof.j = proof'.j
  commitment : proof.proofVc.commitment = proof'.proofVc.commitment

theorem j_eq_extract (hc : c ≠ c') (hs : proof.SameStart proof')
    (h : proof.Accepts vk revealed c) (h' : proof'.Accepts vk revealed c') :
    let w := proof.extract proof' c c'
    let hidden := hiddenIndices vk.yTilde.length revealed.keys
    w.hidden.length = hidden.length ∧
      proof.j = w.t • vk.gTilde +
        Pedersen.commit (hidden.map (vk.yTilde.getD · 0)) w.hidden := by
  intro w hidden
  obtain ⟨hlen, heq⟩ := ProofVC.eq_commit_extract hc hs.commitment h.vc
    (by rw [hs.j]; exact h'.vc)
  obtain ⟨x, l, hl⟩ := List.exists_cons_of_length_eq_add_one hlen
  have hw : w.hidden = l := by simp [w, extract, hl]
  rw [hl] at hlen heq
  rw [hw, heq]
  constructor
  · simpa [hiddenBases] using hlen
  · simp only [hiddenBases, List.cons_append, List.nil_append, commit_cons]
    simp [w, extract, hl, hidden]

theorem extracted_opens {order' : HashOrder ℕ} (hc : c ≠ c') (hs : proof.SameStart proof')
    (hlt : ∀ i ∈ revealed.keys, i < vk.yTilde.length)
    (h : proof.verify order vk revealed c = .ok true)
    (h' : proof'.verify order' vk revealed c' = .ok true) :
    let w := proof.extract proof' c c'
    let hidden := hiddenIndices vk.yTilde.length revealed.keys
    let messages := assemble vk.yTilde.length revealed w.hidden
    let sig := proof.sig.getUnblindedSignature w.t
    proof.j = w.t • vk.gTilde + Pedersen.commit (hidden.map (vk.yTilde.getD · 0)) w.hidden ∧
      sig.Signs messages vk ∧ (sig.sigma2 ≠ 0 → sig.verify messages vk = .ok true) := by
  intro w hidden messages sig
  rw [verify_eq_ok_true_iff hlt] at h h'
  obtain ⟨hlen, hj⟩ := j_eq_extract hc hs h h'
  have hsum : proof.j + disclosed vk revealed =
      w.t • vk.gTilde + Pedersen.commit vk.yTilde messages := by
    rw [commit_assemble rfl hlen, hj, disclosed]
    abel
  have hsigns : sig.Signs messages vk := by
    have hpair := h.pair_eq
    rw [hsum, add_assoc, C.pair_add_right, C.pair_smul_right] at hpair
    calc C.pair proof.sig.sigma1 (vk.xTilde + Pedersen.commit vk.yTilde messages)
      _ = C.pair proof.sig.sigma2 vk.gTilde - w.t • C.pair proof.sig.sigma1 vk.gTilde := by
        rw [add_comm vk.xTilde, ← hpair, add_sub_cancel_left]
      _ = C.pair (proof.sig.sigma2 - w.t • proof.sig.sigma1) vk.gTilde := by
        rw [C.pair_sub_left, C.pair_smul_left]
  refine ⟨hj, hsigns, fun hne => ?_⟩
  have hcount : messages.length = vk.y.length := by
    rw [length_assemble, Verkey.validate_eq_ok_iff.mp h.validate]
  rw [Signature.verify_eq_ok_true_iff h.validate hcount]
  refine ⟨?_, hsigns⟩
  rintro (hzero | hzero)
  · exact h.sigma_ne <| .inl hzero
  · exact hne hzero

end Extract

-- The two proofs of one holder under the challenges 1 and 2, with the second of two messages
-- revealed.
def sampleKey : Verkey curveMod7 where
  g := mod7 1
  gTilde := mod7 1
  xTilde := mod7 3
  y := [mod7 1, mod7 2]
  yTilde := [mod7 1, mod7 2]

def sampleProof (responses : List ℕ) : PoKOfSignatureProof curveMod7 where
  sig := ⟨mod7 6, mod7 3⟩
  j := mod7 5
  proofVc := ⟨mod7 2, responses.map mod7⟩

theorem sampleProof_verify :
    (sampleProof [3, 1]).verify ascending sampleKey (Finmap.singleton 1 (mod7 5)) (mod7 1) =
      .ok true := by
  rfl

theorem sampleProof_verify' :
    (sampleProof [2, 4]).verify ascending sampleKey (Finmap.singleton 1 (mod7 5)) (mod7 2) =
      .ok true := by
  rfl

theorem extracted_opens_sample :
    let proof := sampleProof [3, 1]
    let proof' := sampleProof [2, 4]
    let revealed : IndexMap (FieldElement curveMod7) := Finmap.singleton 1 (mod7 5)
    let w := proof.extract proof' (mod7 1) (mod7 2)
    let hidden := hiddenIndices sampleKey.yTilde.length revealed.keys
    let messages := assemble sampleKey.yTilde.length revealed w.hidden
    let sig := proof.sig.getUnblindedSignature w.t
    proof.j = w.t • sampleKey.gTilde +
        Pedersen.commit (hidden.map (sampleKey.yTilde.getD · 0)) w.hidden ∧
      sig.Signs messages sampleKey ∧ sig.verify messages sampleKey = .ok true := by
  intro proof proof' revealed
  have hc : mod7 1 ≠ mod7 2 := by decide
  have hs : proof.SameStart proof' := ⟨rfl, rfl, rfl⟩
  have hlt : ∀ i ∈ revealed.keys, i < sampleKey.yTilde.length := by decide
  obtain ⟨hj, hsigns, hverify⟩ := extracted_opens hc hs hlt sampleProof_verify sampleProof_verify'
  exact ⟨hj, hsigns, hverify (by decide +kernel)⟩

end PoKOfSignatureProof

namespace PoKOfSignature

open PoKOfSignatureProof (hiddenBases)

variable {pok : PoKOfSignature C} {sig : Signature C} {random : Random C} {revealed : IndexSet}

theorem foldlM_commit (draws : ℕ → FieldElement C) {bases : List (OtherGroup C × ℕ)}
    {committing : ProverCommitting C (OtherGroup C)} {blindings : List (Option (FieldElement C))}
    (hlen : blindings.length = bases.length) (hbalanced : committing.Balanced) :
    ∃ state, bases.foldlM (commit draws) (committing, blindings) = .ok state ∧
      state.1.Balanced ∧ state.1.gens = committing.gens ++ bases.map Prod.fst := by
  induction bases generalizing committing blindings
  case nil => exact ⟨(committing, blindings), rfl, hbalanced, (List.append_nil _).symm⟩
  case cons base bases hi =>
    obtain ⟨b, bs, rfl⟩ := List.exists_cons_of_length_eq_add_one hlen
    obtain ⟨state, hrun, hbalanced', hgens⟩ := hi (Nat.succ.inj hlen)
      (hbalanced.commit base.1 b (draws base.2))
    refine ⟨state, ?_, hbalanced', ?_⟩
    · rw [List.foldlM_cons, ← hrun]
      rfl
    · simp [hgens, ProverCommitting.commit]

-- What `init` leaves behind: the randomised signature, and a commitment to the secrets behind `J`.
structure Prepared (pok : PoKOfSignature C) (sig : Signature C) (vk : Verkey C)
    (messages : List (FieldElement C)) (revealed : IndexSet) (random : Random C) : Prop where
  sig_eq : pok.sig = ⟨random.r • sig.sigma1, random.r • (sig.sigma2 + random.t • sig.sigma1)⟩
  secrets_eq : pok.secrets =
    [random.t] ++ (hiddenIndices vk.yTilde.length revealed).map (messages.getD · 0)
  j_eq : pok.j = Pedersen.commit (hiddenBases vk revealed) pok.secrets
  vc : pok.pokVc.Commits (hiddenBases vk revealed)

theorem init_eq_ok (sig : Signature C) (random : Random C) (order : HashOrder ℕ)
    {blindings : Option (List (FieldElement C))} (hvk : vk.validate = .ok ())
    (hlen : messages.length = vk.yTilde.length) (hlt : ∀ i ∈ revealed, i < vk.yTilde.length)
    (hblindings : ∀ b ∈ blindings, b.length = vk.yTilde.length - revealed.card) :
    ∃ pok, init order sig vk messages blindings revealed random = .ok pok ∧
      pok.Prepared sig vk messages revealed random := by
  have hindices : checkIndices PSErrorKind.generalError (order.iter revealed) messages.length =
      .ok () := by
    rw [checkIndices_eq_ok_iff, hlen]
    exact fun i hi => hlt i <| (order.mem_iter _ _).mp hi
  have hcompat : Signature.checkVerkeyAndMessagesCompat messages vk = .ok () := by
    rw [Signature.checkVerkeyAndMessagesCompat_eq_ok_iff, Verkey.validate_eq_ok_iff.mp hvk]
    exact ⟨hvk, hlen⟩
  obtain ⟨blindings', hblindings', hcount⟩ := hiddenBlindings_eq_ok
    (fun given hidden => PSErrorKind.generalError
      s!"No of blindings {given} not equal to number of hidden messages {hidden}")
    (hlen ▸ card_le hlt) (hlen ▸ hblindings)
  have hsub : usizeSub vk.yTilde.length revealed.card =
      (.ok (vk.yTilde.length - revealed.card) : PSResult _) := if_pos (card_le hlt)
  have hbases : (hiddenIndices vk.yTilde.length revealed).mapM (nth vk.yTilde) =
      (.ok ((hiddenIndices vk.yTilde.length revealed).map (vk.yTilde.getD · 0)) : PSResult _) :=
    mapM_nth_hiddenIndices 0 rfl
  have hexponents : (hiddenIndices vk.yTilde.length revealed).mapM (nth messages) =
      (.ok ((hiddenIndices vk.yTilde.length revealed).map (messages.getD · 0)) : PSResult _) :=
    mapM_nth_hiddenIndices 0 hlen.symm
  let secrets := [random.t] ++ (hiddenIndices vk.yTilde.length revealed).map (messages.getD · 0)
  have hsecrets : (hiddenBases vk revealed).length = secrets.length := by
    simp [hiddenBases, secrets]
  have hlen' : (none :: blindings').length = (hiddenBases vk revealed).zipIdx.length := by
    simp [hcount, hiddenBases, length_hiddenIndices hlt, hlen]
  obtain ⟨state, hrun, hbalanced, hgens⟩ :=
    foldlM_commit random.blinding hlen' ProverCommitting.balanced_new
  obtain ⟨committed, hfinish, hcommits⟩ := hbalanced.finish_eq_ok PSErrorKind
  refine ⟨⟨secrets, ⟨random.r • sig.sigma1, random.r • (sig.sigma2 + random.t • sig.sigma1)⟩,
    Pedersen.commit (hiddenBases vk revealed) secrets, committed⟩, ?_, rfl, rfl, rfl, ?_⟩
  · have hj : multiScalarMul (hiddenBases vk revealed) secrets =
        some (Pedersen.commit (hiddenBases vk revealed) secrets) :=
      multiScalarMul_of_length_eq hsecrets
    simp only [hiddenBases, secrets] at hj hrun
    simp only [init, hindices, hcompat, hblindings', hsub, hbases, hexponents, ok_bind, hj,
      unwrap_some, hrun, hfinish]
    rfl
  · rw [hgens, List.zipIdx_map_fst] at hcommits
    exact hcommits

-- The randomised signature is one over the messages and the exponent `t`.
theorem Prepared.pair_eq (h : pok.Prepared sig vk messages revealed random)
    (hsigns : sig.Signs messages vk) (hlen : messages.length = vk.yTilde.length) :
    C.pair pok.sig.sigma1
      (pok.j + Pedersen.commit
        ((revealedIndices vk.yTilde.length revealed).map (vk.yTilde.getD · 0))
        ((revealedIndices vk.yTilde.length revealed).map (messages.getD · 0)) + vk.xTilde) =
      C.pair pok.sig.sigma2 vk.gTilde := by
  have hsum : pok.j + Pedersen.commit
      ((revealedIndices vk.yTilde.length revealed).map (vk.yTilde.getD · 0))
      ((revealedIndices vk.yTilde.length revealed).map (messages.getD · 0)) =
        random.t • vk.gTilde + Pedersen.commit vk.yTilde messages := by
    rw [commit_split rfl hlen revealed, h.j_eq, h.secrets_eq, hiddenBases]
    simp only [List.cons_append, List.nil_append, commit_cons]
    abel
  rw [hsum, h.sig_eq, add_assoc, add_comm _ vk.xTilde, C.pair_add_right, C.pair_smul_left,
    C.pair_smul_left, C.pair_smul_left, hsigns, C.pair_smul_right, C.pair_add_left,
    C.pair_smul_left]
  module

-- A proof of a valid signature is accepted with exactly the revealed messages, unless the
-- randomisation took the second component to the identity.
theorem verify_of_prepared {c : FieldElement C}
    (h : pok.Prepared sig vk messages revealed random) (hvk : vk.validate = .ok ())
    (hsigns : sig.Signs messages vk) (hne : sig.sigma1 ≠ 0) (hr : random.r ≠ 0)
    (hlen : messages.length = vk.yTilde.length) (hlt : ∀ i ∈ revealed, i < vk.yTilde.length) :
    ∃ proof, pok.genProof c = .ok proof ∧ ∀ (order : HashOrder ℕ) revealedMsgs,
      Reveals revealedMsgs messages revealed →
        (proof.verify order vk revealedMsgs c = .ok true ↔ pok.sig.sigma2 ≠ 0) := by
  have hlen' : pok.secrets.length = (hiddenBases vk revealed).length := by
    simp [h.secrets_eq, hiddenBases]
  obtain ⟨proofVc, hproof, hverify⟩ := h.vc.genProof (c := c) hlen' h.j_eq
  refine ⟨⟨pok.sig, pok.j, proofVc⟩, ?_, fun order revealedMsgs hrev => ?_⟩
  · rw [genProof, hproof]
    rfl
  have hkeys : revealedMsgs.keys = revealed := hrev.keys_eq (hlen ▸ hlt)
  have hpair : C.pair pok.sig.sigma1
      (pok.j + PoKOfSignatureProof.disclosed vk revealedMsgs + vk.xTilde) =
        C.pair pok.sig.sigma2 vk.gTilde := by
    rw [PoKOfSignatureProof.disclosed, hkeys, ← hrev.map_getD (hlen ▸ hlt)]
    exact h.pair_eq hsigns hlen
  have hne' : pok.sig.sigma1 ≠ 0 := by
    rw [h.sig_eq]
    exact smul_ne_zero hr hne
  rw [PoKOfSignatureProof.verify_eq_ok_true_iff (hkeys.symm ▸ hlt)]
  constructor
  case mp => exact fun haccepts hzero => haccepts.sigma_ne <| .inr hzero
  case mpr =>
    intro hne₂
    exact
      { validate := hvk
        sigma_ne := not_or.mpr ⟨hne', hne₂⟩
        vc := by rwa [hkeys]
        pair_eq := hpair }

end PoKOfSignature

-- From the key pair to the accepted proof, over a commitment to the first `j` messages.
theorem signed_and_presented (hash₁ : List UInt8 → SignatureGroup C)
    (hash₂ : List UInt8 → OtherGroup C) (label : List UInt8) (x : FieldElement C)
    (y : ℕ → FieldElement C) (blinding u c : FieldElement C) (order : HashOrder ℕ)
    {random : PoKOfSignature.Random C} {blindings : Option (List (FieldElement C))}
    {revealed : IndexSet} (hlen : messages.length = k) (hj : j ≤ k) (hr : random.r ≠ 0)
    (hlt : ∀ i ∈ revealed, i < k) (hblindings : ∀ b ∈ blindings, b.length = k - revealed.card) :
    let vk := (keygen hash₁ hash₂ k label x y).1
    let sk := (keygen hash₁ hash₂ k label x y).2
    ∃ sig, Signature.issue messages j blinding sk vk u = .ok sig ∧
      (sig.sigma1 ≠ 0 → sig.sigma2 ≠ 0 → sig.verify messages vk = .ok true ∧
        ∃ pok, PoKOfSignature.init order sig vk messages blindings revealed random = .ok pok ∧
          ∃ proof, pok.genProof c = .ok proof ∧ ∀ (order : HashOrder ℕ) revealedMsgs,
            Reveals revealedMsgs messages revealed →
              (proof.verify order vk revealedMsgs c = .ok true ↔ pok.sig.sigma2 ≠ 0)) := by
  intro vk sk
  have hgenerated := keygen_generated hash₁ hash₂ k label x y
  have hcount : vk.y.length = k := by simp [vk, keygen]
  have hcount' : vk.yTilde.length = k := by simp [vk, keygen]
  have hsig : Signature.issue messages j blinding sk vk u =
      .ok ⟨u • vk.g, u • (sk.x + Pedersen.commit vk.y messages)⟩ :=
    Signature.issue_eq_ok hgenerated (hlen.trans hcount.symm) (hj.trans_eq hcount.symm)
  refine ⟨_, hsig, fun h₁ h₂ => ⟨?_, ?_⟩⟩
  · exact (Signature.verify_eq_ok_true_iff hgenerated.validate (hlen.trans hcount.symm)).mpr
      ⟨not_or.mpr ⟨h₁, h₂⟩, hgenerated.signs u⟩
  · rw [← hcount'] at hlen hlt hblindings
    obtain ⟨pok, hinit, hprepared⟩ := PoKOfSignature.init_eq_ok _ random order
      hgenerated.validate hlen hlt hblindings
    exact ⟨pok, hinit, PoKOfSignature.verify_of_prepared hprepared hgenerated.validate
      (hgenerated.signs u) h₁ hr hlen hlt⟩

theorem signed_and_presented_two :
    let hash (_ : List UInt8) := mod7 1
    let keys := keygen hash hash 2 [] (mod7 3) fun i => mod7 (i + 1)
    let messages := [mod7 4, mod7 5]
    let random : PoKOfSignature.Random curveMod7 := ⟨mod7 3, mod7 1, mod7⟩
    ∃ sig pok proof,
      Signature.issue messages 1 (mod7 6) keys.2 keys.1 (mod7 2) = .ok sig ∧
      sig.verify messages keys.1 = .ok true ∧
      PoKOfSignature.init ascending sig keys.1 messages (some [mod7 2]) {1} random = .ok pok ∧
      pok.genProof (mod7 5) = .ok proof ∧
      proof.verify ascending keys.1 (Finmap.singleton 1 (mod7 5)) (mod7 5) = .ok true := by
  intro hash keys messages random
  have hlen : messages.length = 2 := rfl
  have hr : random.r ≠ 0 := by decide
  have hblindings : ∀ b ∈ some [mod7 2], b.length = 2 - ({1} : IndexSet).card := by simp
  obtain ⟨sig, hsig, hpresent⟩ := signed_and_presented hash hash [] (mod7 3)
    (fun i => mod7 (i + 1)) (mod7 6) (mod7 2) (mod7 5) ascending hlen (Nat.le_succ 1) hr
    (by decide) hblindings
  have hsig' : sig = ⟨mod7 2, mod7 6⟩ := Except.ok.inj <| hsig.symm.trans rfl
  subst hsig'
  obtain ⟨hverify, pok, hinit, proof, hproof, haccept⟩ := hpresent (by decide) (by decide)
  have hsigma : (PoKOfSignature.init ascending ⟨mod7 2, mod7 6⟩ keys.1 messages (some [mod7 2]) {1}
      random).map (fun pok => pok.sig.sigma2) = .ok (mod7 3) := rfl
  rw [hinit] at hsigma
  have h3 : (mod7 3 : SignatureGroup curveMod7) ≠ 0 := by decide
  have hne : pok.sig.sigma2 ≠ 0 := (Except.ok.inj hsigma).trans_ne h3
  exact ⟨_, pok, proof, hsig, hverify, hinit, hproof,
    (haccept ascending _ (.singleton rfl)).mpr hne⟩

end Ursa.Ps
