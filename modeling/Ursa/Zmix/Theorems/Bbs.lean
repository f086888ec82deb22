import Ursa.Zmix.Bbs
import Ursa.Zmix.Theorems.Disclosure

namespace Ursa.Bbs

open UrsaCryptoResult ZmixResult Pedersen

variable {C : Curve} {gen : Generators C} {vk : PublicKey C} {messages : List (FieldElement C)}

namespace PublicKey

-- The point that is signed under the blinding factor `s`.
def signed (vk : PublicKey C) (gen : Generators C) (s : FieldElement C)
    (messages : List (FieldElement C)) : PointG1 C :=
  gen.g1 + s • vk.h0 + commit vk.h messages

theorem validate_eq_ok_iff :
    vk.validate = .ok () ↔ vk.h0 ≠ 0 ∧ vk.w ≠ 0 ∧ 0 ∉ vk.h := by
  rw [validate, ite_fail_eq_ok_iff]
  simp [pure, Except.pure, not_or]

end PublicKey

theorem computeBConstTime_eq (hlen : offset + messages.length = vk.h.length) :
    computeBConstTime gen start vk messages s offset =
      .ok (start + (gen.g1 + s • vk.h0 + commit (vk.h.drop offset) messages)) := by
  have hlen' : ([gen.g1, vk.h0] ++ vk.h.drop offset).length = ([1, s] ++ messages).length := by
    simp only [List.length_append, List.length_drop, List.length_cons, List.length_nil]
    omega
  have hcommit : commit ([gen.g1, vk.h0] ++ vk.h.drop offset) ([1, s] ++ messages) =
      gen.g1 + s • vk.h0 + commit (vk.h.drop offset) messages := by
    simp only [List.cons_append, List.nil_append, commit_cons, one_smul, add_assoc]
  simp only [computeBConstTime, prepVecForB, mapM_nth_drop hlen, ok_bind, pure_bind,
    multiScalarMul_of_length_eq hlen', unwrap_some, hcommit]
  rfl

theorem computeBConstTime_eq_signed (hlen : messages.length = vk.messageCount) :
    computeBConstTime gen 0 vk messages s 0 = .ok (vk.signed gen s messages) := by
  have hlen' : 0 + messages.length = vk.h.length := by rw [hlen, PublicKey.messageCount, zero_add]
  rw [computeBConstTime_eq hlen', List.drop_zero, zero_add]
  rfl

namespace Signature

variable {sig : Signature C}

-- The equation that a signature is verified with.
def Signs (sig : Signature C) (gen : Generators C) (messages : List (FieldElement C))
    (vk : PublicKey C) : Prop :=
  C.pair sig.a (sig.e • gen.g2 + vk.w) = C.pair (vk.signed gen sig.s messages) gen.g2

theorem verify_eq_ok_true_iff :
    sig.verify gen messages vk = .ok true ↔
      messages.length = vk.messageCount ∧ sig.Signs gen messages vk := by
  rw [verify, ite_fail_eq_ok_iff, not_not]
  refine and_congr_right fun hlen => ?_
  rw [computeBVarTime, computeBConstTime_eq_signed hlen, ok_bind, pure_eq_ok_iff,
    GT.isOne_ate2Pairing_neg]
  rfl

end Signature

namespace PoKOfSignatureProof

variable {proof : PoKOfSignatureProof C} {revealed : IndexMap (FieldElement C)}

-- The bases of the second relation, and the point whose opposite it is about.
def hiddenBases (proof : PoKOfSignatureProof C) (vk : PublicKey C) (revealed : IndexSet) :
    List (PointG1 C) :=
  [proof.d, vk.h0] ++ (hiddenIndices vk.messageCount revealed).map (vk.h.getD · 0)

def disclosed (gen : Generators C) (vk : PublicKey C) (revealed : IndexMap (FieldElement C)) :
    PointG1 C :=
  let shown := revealedIndices vk.messageCount revealed.keys
  gen.g1 + commit (shown.map (vk.h.getD · 0)) (shown.map fun i => (revealed.lookup i).getD 0)

theorem disclosed_eq :
    multiScalarMul
      ([gen.g1] ++ (revealedIndices vk.messageCount revealed.keys).map (vk.h.getD · 0))
      ([1] ++ (revealedIndices vk.messageCount revealed.keys).map fun i =>
        (revealed.lookup i).getD 0) = some (disclosed gen vk revealed) := by
  rw [multiScalarMul_of_length_eq (by simp)]
  simp only [List.cons_append, List.nil_append, commit_cons, one_smul]
  rfl

-- The signed point splits into what is disclosed and what is hidden.
theorem signed_assemble (s : FieldElement C) {hidden : List (FieldElement C)}
    (hlen : hidden.length = (hiddenIndices vk.messageCount revealed.keys).length) :
    vk.signed gen s (assemble vk.messageCount revealed hidden) =
      disclosed gen vk revealed + s • vk.h0 +
        commit ((hiddenIndices vk.messageCount revealed.keys).map (vk.h.getD · 0)) hidden := by
  have hcount : vk.h.length = vk.messageCount := rfl
  rw [PublicKey.signed, commit_assemble hcount hlen, disclosed]
  abel

structure Accepts (proof : PoKOfSignatureProof C) (gen : Generators C) (vk : PublicKey C)
    (revealed : IndexMap (FieldElement C)) (c : FieldElement C) : Prop where
  validate : vk.validate = .ok ()
  lt : ∀ i ∈ revealed.keys, i < vk.messageCount
  aPrime_ne : proof.aPrime ≠ 0
  pair_eq : C.pair proof.aPrime vk.w = C.pair proof.aBar gen.g2
  vc1 : proof.proofVc1.verify [proof.aPrime, vk.h0] (proof.aBar - proof.d) c = .ok true
  vc2 : proof.proofVc2.verify (proof.hiddenBases vk revealed.keys) (-disclosed gen vk revealed) c =
    .ok true

theorem verify_eq_ok_true_iff {order : HashOrder ℕ} {c : FieldElement C} :
    proof.verify order gen vk revealed c = .ok true ↔ proof.Accepts gen vk revealed c := by
  have hcount : vk.messageCount = vk.h.length := rfl
  have hexponents :
      (revealedIndices vk.messageCount revealed.keys).mapM (fun i => unwrap (revealed.lookup i)) =
        (.ok ((revealedIndices vk.messageCount revealed.keys).map fun i =>
          (revealed.lookup i).getD 0) : BBSResult _) :=
    mapM_unwrap_lookup fun i hi => (mem_revealedIndices.mp hi).right
  rw [verify, seq_eq_ok_iff, seq_eq_ok_iff, checkIndices_eq_ok_iff, ite_false_eq_ok_true_iff,
    ite_false_eq_ok_true_iff, guard_eq_ok_true_iff, mapKind_eq_ok_iff]
  simp only [mapM_nth_hiddenIndices 0 hcount, mapM_nth_revealedIndices 0 hcount, hexponents,
    ok_bind, disclosed_eq, unwrap_some, mapKind_eq_ok_iff, HashOrder.mem_iter, Bool.not_eq_true',
    Bool.not_eq_false, GT.isOne_ate2Pairing_neg]
  constructor
  case mp =>
    rintro ⟨h₁, h₂, h₃, h₄, h₅, h₆⟩
    exact ⟨h₁, h₂, h₃, h₄, h₅, h₆⟩
  case mpr => exact fun h => ⟨h.validate, h.lt, h.aPrime_ne, h.pair_eq, h.vc1, h.vc2⟩

-- The exponents behind the two relations, as the answers to two challenges give them away.
structure Extracted (C : Curve) where
  e : FieldElement C
  r2 : FieldElement C
  r3 : FieldElement C
  sPrime : FieldElement C
  hidden : List (FieldElement C)

def extract (proof proof' : PoKOfSignatureProof C) (c c' : FieldElement C) : Extracted C :=
  let secrets1 := Pedersen.extract c c' proof.proofVc1.responses proof'.proofVc1.responses
  let secrets2 := Pedersen.extract c c' proof.proofVc2.responses proof'.proofVc2.responses
  { e := -secrets1.getD 0 0
    r2 := secrets1.getD 1 0
    r3 := -secrets2.getD 0 0
    sPrime := secrets2.getD 1 0
    hidden := secrets2.drop 2 }

def Extracted.signature (self : Extracted C) (aPrime : PointG1 C) : Signature C where
  a := self.r3 • aPrime
  e := self.e
  s := self.sPrime + self.r2 * self.r3

-- The two proofs start from the same randomised signature and the same commitments.
structure SameStart (proof proof' : PoKOfSignatureProof C) : Prop where
  aPrime : proof.aPrime = proof'.aPrime
  aBar : proof.aBar = proof'.aBar
  d : proof.d = proof'.d
  vc1 : proof.proofVc1.commitment = proof'.proofVc1.commitment
  vc2 : proof.proofVc2.commitment = proof'.proofVc2.commitment

section Extract

variable {proof' : PoKOfSignatureProof C} {c c' : FieldElement C}

-- The relation that the two extracted exponents of the first commitment satisfy.
theorem sub_eq_extract (hc : c ≠ c') (hs : proof.SameStart proof')
    (h : proof.Accepts gen vk revealed c) (h' : proof'.Accepts gen vk revealed c') :
    let w := proof.extract proof' c c'
    proof.aBar - proof.d = -w.e • proof.aPrime + w.r2 • vk.h0 := by
  intro w
  obtain ⟨hlen, heq⟩ := ProofVC.eq_commit_extract hc hs.vc1 h.vc1
    (by rw [hs.aPrime, hs.aBar, hs.d]; exact h'.vc1)
  obtain ⟨x, y, hxy⟩ := List.length_eq_two.mp hlen
  rw [heq, hxy, commit_cons, commit_cons, commit_nil, add_zero]
  simp [w, extract, hxy]

theorem neg_disclosed_eq_extract (hc : c ≠ c') (hs : proof.SameStart proof')
    (h : proof.Accepts gen vk revealed c) (h' : proof'.Accepts gen vk revealed c') :
    let w := proof.extract proof' c c'
    let hidden := hiddenIndices vk.messageCount revealed.keys
    w.hidden.length = hidden.length ∧
      -disclosed gen vk revealed =
        -w.r3 • proof.d + w.sPrime • vk.h0 + commit (hidden.map (vk.h.getD · 0)) w.hidden := by
  intro w hidden
  obtain ⟨hlen, heq⟩ := ProofVC.eq_commit_extract hc hs.vc2 h.vc2
    (by rw [hiddenBases, hs.d]; exact h'.vc2)
  obtain ⟨x, l, hl⟩ := List.exists_cons_of_length_eq_add_one hlen
  obtain ⟨y, l, rfl⟩ := List.exists_cons_of_length_eq_add_one <| Nat.succ.inj (hl ▸ hlen)
  have hw : w.hidden = l := by simp [w, extract, hl]
  rw [hl] at hlen heq
  rw [hw, heq]
  constructor
  · simpa [hiddenBases] using hlen
  · simp only [hiddenBases, List.cons_append, List.nil_append, commit_cons]
    simp [w, extract, hl, add_assoc, hidden]

end Extract

theorem extracted_verifies {order order' : HashOrder ℕ} {c c' : FieldElement C} (hc : c ≠ c')
    (hs : proof.SameStart proof') (h : proof.verify order gen vk revealed c = .ok true)
    (h' : proof'.verify order' gen vk revealed c' = .ok true) :
    let w := proof.extract proof' c c'
    let messages := assemble vk.messageCount revealed w.hidden
    (w.signature proof.aPrime).verify gen messages vk = .ok true := by
  intro w messages
  rw [verify_eq_ok_true_iff] at h h'
  have h₁ := sub_eq_extract hc hs h h'
  obtain ⟨hlen, h₂⟩ := neg_disclosed_eq_extract hc hs h h'
  have hd : proof.d = proof.aBar + w.e • proof.aPrime - w.r2 • vk.h0 := by
    rw [sub_eq_iff_eq_add] at h₁
    rw [h₁]
    module
  have hsigned : vk.signed gen (w.sPrime + w.r2 * w.r3) messages =
      w.r3 • (proof.aBar + w.e • proof.aPrime) := by
    rw [neg_eq_iff_eq_neg] at h₂
    rw [signed_assemble _ hlen, h₂, hd]
    module
  rw [Signature.verify_eq_ok_true_iff]
  refine ⟨length_assemble, ?_⟩
  calc C.pair (w.r3 • proof.aPrime) (w.e • gen.g2 + vk.w)
    _ = w.r3 • (w.e • C.pair proof.aPrime gen.g2 + C.pair proof.aBar gen.g2) := by
      rw [C.pair_smul_left, C.pair_add_right, C.pair_smul_right, h.pair_eq]
    _ = C.pair (w.r3 • (proof.aBar + w.e • proof.aPrime)) gen.g2 := by
      rw [C.pair_smul_left, C.pair_add_left, C.pair_smul_left, add_comm]
    _ = C.pair (vk.signed gen (w.sPrime + w.r2 * w.r3) messages) gen.g2 := by
      rw [hsigned]

-- The two proofs of one holder under the challenges 1 and 2, with the second of two messages
-- revealed.
def sampleGenerators : Generators curveMod7 where
  g1 := mod7 1
  g2 := mod7 1

def sampleKey : PublicKey curveMod7 where
  h0 := mod7 5
  h := [mod7 2, mod7 3]
  w := mod7 3

def sampleProof (responses1 responses2 : List ℕ) : PoKOfSignatureProof curveMod7 where
  aPrime := mod7 6
  aBar := mod7 4
  d := mod7 2
  proofVc1 := ⟨mod7 0, responses1.map mod7⟩
  proofVc2 := ⟨mod7 0, responses2.map mod7⟩

theorem sampleProof_verify :
    (sampleProof [5, 2] [3, 5, 1]).verify ascending sampleGenerators sampleKey
      (Finmap.singleton 1 (mod7 6)) (mod7 1) = .ok true := by
  rfl

theorem sampleProof_verify' :
    (sampleProof [6, 6] [0, 2, 0]).verify ascending sampleGenerators sampleKey
      (Finmap.singleton 1 (mod7 6)) (mod7 2) = .ok true := by
  rfl

theorem extracted_verifies_sample :
    let proof := sampleProof [5, 2] [3, 5, 1]
    let proof' := sampleProof [6, 6] [0, 2, 0]
    let revealed : IndexMap (FieldElement curveMod7) := Finmap.singleton 1 (mod7 6)
    let w := proof.extract proof' (mod7 1) (mod7 2)
    let messages := assemble sampleKey.messageCount revealed w.hidden
    (w.signature proof.aPrime).verify sampleGenerators messages sampleKey = .ok true := by
  intro proof proof' revealed
  have hc : mod7 1 ≠ mod7 2 := by decide
  have hs : proof.SameStart proof' := ⟨rfl, rfl, rfl, rfl, rfl⟩
  exact extracted_verifies hc hs sampleProof_verify sampleProof_verify'

end PoKOfSignatureProof

namespace Signature

variable {x e s blinding : FieldElement C} {sig : Signature C}

theorem signs_signed (hw : vk.w = x • gen.g2) (he : x + e ≠ 0) :
    Signs ⟨(x + e)⁻¹ • vk.signed gen s messages, e, s⟩ gen messages vk := by
  rw [Signs, hw, ← add_smul, add_comm e, C.pair_smul_right, C.pair_smul_left, smul_inv_smul₀ he]

-- A signature on a commitment to the first `j` messages, unblinded.
theorem signs_of_committed (hw : vk.w = x • gen.g2) (he : x + e ≠ 0)
    (hlen : messages.length = vk.messageCount) (hj : j ≤ vk.messageCount)
    (hcommitment : commitment = blinding • vk.h0 + commit (vk.h.take j) (messages.take j)) :
    ∃ sig, newWithCommittedMessages gen commitment (messages.drop j) x vk e s = .ok sig ∧
      (sig.getUnblindedSignature blinding).Signs gen messages vk := by
  have hrest : (messages.drop j).length = vk.messageCount - j := by rw [List.length_drop, hlen]
  have hoffset : vk.messageCount - (messages.drop j).length = j := by omega
  have hdrop : j + (messages.drop j).length = vk.h.length := by
    rw [hrest]
    exact Nat.add_sub_cancel' hj
  have hsigned : commitment + (gen.g1 + s • vk.h0 + commit (vk.h.drop j) (messages.drop j)) =
      vk.signed gen (s + blinding) messages := by
    rw [PublicKey.signed, hcommitment, ← commit_take_add_drop hlen.symm j]
    module
  refine ⟨⟨(x + e)⁻¹ • vk.signed gen (s + blinding) messages, e, s⟩, ?_, signs_signed hw he⟩
  rw [newWithCommittedMessages, if_neg (by omega), usizeSub, if_pos (by omega), ok_bind, hoffset,
    computeBConstTime_eq hdrop, ok_bind, hsigned]
  rfl

-- The messages are signed over the last bases of the key, as many as there are messages.
theorem new_eq_ok_iff : new gen messages x vk e s = .ok sig ↔
    messages ≠ [] ∧ messages.length ≤ vk.messageCount ∧
      { a := (x + e)⁻¹ • (gen.g1 + s • vk.h0 +
          commit (vk.h.drop (vk.messageCount - messages.length)) messages), e, s } = sig := by
  rw [new, ite_fail_eq_ok_iff, newWithCommittedMessages, ite_fail_eq_ok_iff, not_lt,
    List.isEmpty_iff]
  refine and_congr_right fun _ => and_congr_right fun hle => ?_
  have hoffset : vk.messageCount - messages.length + messages.length = vk.h.length :=
    Nat.sub_add_cancel hle
  rw [usizeSub, if_pos hle, ok_bind, computeBConstTime_eq hoffset, ok_bind, zero_add,
    pure_eq_ok_iff]

-- A slice shorter than the key is signed, and the verifier does not take it.
theorem verify_new_iff (hw : vk.w = x • gen.g2) (he : e ≠ -x) :
    (∀ sig, new gen messages x vk e s = .ok sig → sig.verify gen messages vk = .ok true) ↔
      messages = [] ∨ vk.messageCount ≤ messages.length := by
  constructor
  case mp =>
    intro h
    by_contra! hshort
    have hok := h _ <| new_eq_ok_iff.mpr ⟨hshort.left, hshort.right.le, rfl⟩
    exact hshort.right.ne (verify_eq_ok_true_iff.mp hok).left
  case mpr =>
    intro h sig hsig
    obtain ⟨hne, hle, rfl⟩ := new_eq_ok_iff.mp hsig
    have hlen := hle.antisymm <| h.resolve_left hne
    have hx : x + e ≠ 0 := fun h₀ => he <| eq_neg_of_add_eq_zero_right h₀
    rw [hlen, Nat.sub_self, List.drop_zero]
    exact verify_eq_ok_true_iff.mpr ⟨hlen, signs_signed hw hx⟩

-- Two messages, and one, under a key for two.
theorem verify_new_two :
    let gen := PoKOfSignatureProof.sampleGenerators
    ∃ vk sk sig, generate gen 2 (mod7 3) (fun i => mod7 (i + 2)) (mod7 5) = .ok (vk, sk) ∧
      new gen [mod7 1, mod7 6] sk vk (mod7 1) (mod7 6) = .ok sig ∧
      sig.verify gen [mod7 1, mod7 6] vk = .ok true := by
  intro gen
  let vk : PublicKey curveMod7 := { w := mod7 3 • gen.g2, h0 := mod7 5, h := [mod7 2, mod7 3] }
  have he : mod7 1 ≠ -mod7 3 := by decide
  have hlen : vk.messageCount ≤ [mod7 1, mod7 6].length := le_refl 2
  exact ⟨vk, mod7 3, _, rfl, rfl, (verify_new_iff rfl he).mpr (.inr hlen) _ rfl⟩

theorem verify_new_one :
    let gen := PoKOfSignatureProof.sampleGenerators
    ∃ vk sk sig, generate gen 2 (mod7 3) (fun i => mod7 (i + 2)) (mod7 5) = .ok (vk, sk) ∧
      mod7 1 ≠ -sk ∧ new gen [mod7 6] sk vk (mod7 1) (mod7 6) = .ok sig ∧
      sig.verify gen [mod7 6] vk = .error (.err <| .signingErrorMessageCountMismatch 2 1) :=
  ⟨_, mod7 3, _, rfl, by decide, rfl, rfl⟩

end Signature

namespace PoKOfSignature

variable {pok : PoKOfSignature C} {sig : Signature C} {random : Random C} {revealed : IndexSet}

theorem Hidden.foldlM_commit (state : Hidden C) (draws : ℕ → FieldElement C) {is : List ℕ}
    (hlen : messages.length = vk.messageCount) (hlt : ∀ i ∈ is, i < vk.messageCount)
    (hblindings : state.blindings.length = is.length) (hbalanced : state.committing.Balanced) :
    ∃ state', is.foldlM (Hidden.commit vk messages draws) state = .ok state' ∧
      state'.committing.Balanced ∧
      state'.committing.gens = state.committing.gens ++ is.map (vk.h.getD · 0) ∧
      state'.secrets = state.secrets ++ is.map (messages.getD · 0) := by
  induction is generalizing state
  case nil => exact ⟨state, rfl, hbalanced, (List.append_nil _).symm, (List.append_nil _).symm⟩
  case cons i is hi =>
    obtain ⟨b, bs, hb⟩ := List.exists_cons_of_length_eq_add_one hblindings
    have hlt' : i < vk.messageCount := hlt i (.head _)
    let next : Hidden C :=
      { committing := (state.committing.commit (vk.h.getD i 0) b (draws i)).1
        secrets := state.secrets ++ [messages.getD i 0]
        blindings := bs }
    have hnext : Hidden.commit vk messages draws state i = .ok next := by
      rw [Hidden.commit, nth_of_lt 0 hlt', ok_bind, hb, removeFirst, ok_bind,
        nth_of_lt 0 (hlen ▸ hlt')]
      rfl
    have hrest : bs.length = is.length := by simpa [hb] using hblindings
    obtain ⟨state', hrun, hbalanced', hgens, hsecrets⟩ :=
      hi next (fun i hi => hlt i <| .tail _ hi) hrest (hbalanced.commit ..)
    refine ⟨state', ?_, hbalanced', ?_, ?_⟩
    · rw [List.foldlM_cons, hnext, ok_bind, hrun]
    · simp [hgens, next, ProverCommitting.commit]
    · simp [hsecrets, next]

theorem finish_pair (g g' : PointG1 C) (x x' : FieldElement C) :
    ∃ committed, (((ProverCommitting.new.commit g none x).1.commit g' none x').1.finish :
      BBSResult _) = .ok committed ∧ committed.Commits [g, g'] :=
  ((ProverCommitting.balanced_new.commit ..).commit ..).finish_eq_ok BBSErrorKind

-- What `init` leaves behind: the randomised signature, and commitments to the secrets of the two
-- relations.
structure Prepared (pok : PoKOfSignature C) (gen : Generators C) (sig : Signature C)
    (vk : PublicKey C) (messages : List (FieldElement C)) (revealed : IndexSet)
    (random : Random C) : Prop where
  aPrime : pok.aPrime = random.r1 • sig.a
  aBar : pok.aBar = random.r1 • vk.signed gen sig.s messages - sig.e • pok.aPrime
  d : pok.d = random.r1 • vk.signed gen sig.s messages + -random.r2 • vk.h0
  vc1 : pok.pokVc1.Commits [pok.aPrime, vk.h0]
  secrets1 : pok.secrets1 = [-sig.e, random.r2]
  vc2 : pok.pokVc2.Commits <|
    [pok.d, vk.h0] ++ (hiddenIndices vk.messageCount revealed).map (vk.h.getD · 0)
  secrets2 : pok.secrets2 = [-random.r1⁻¹, sig.s - random.r2 * random.r1⁻¹] ++
    (hiddenIndices vk.messageCount revealed).map (messages.getD · 0)

theorem init_eq_ok (gen : Generators C) (sig : Signature C) (random : Random C)
    (order : HashOrder ℕ) {blindings : Option (List (FieldElement C))}
    (hlen : messages.length = vk.messageCount) (hlt : ∀ i ∈ revealed, i < vk.messageCount)
    (hblindings : ∀ b ∈ blindings, b.length = vk.messageCount - revealed.card) :
    ∃ pok, init order gen sig vk messages blindings revealed random = .ok pok ∧
      pok.Prepared gen sig vk messages revealed random := by
  have hindices : checkIndices BBSErrorKind.generalError (order.iter revealed) messages.length =
      .ok () := by
    rw [checkIndices_eq_ok_iff, hlen]
    exact fun i hi => hlt i <| (order.mem_iter _ _).mp hi
  obtain ⟨blindings', hblindings', hcount⟩ := hiddenBlindings_eq_ok
    (fun given hidden => BBSErrorKind.generalError s!"Blindings {given} != Hidden messages {hidden}")
    (hlen ▸ card_le hlt) (hlen ▸ hblindings)
  have hcount' : blindings'.length = (hiddenIndices vk.messageCount revealed).length := by
    rw [hcount, length_hiddenIndices hlt, hlen]
  let signed := vk.signed gen sig.s messages
  let aPrime := random.r1 • sig.a
  let d := random.r1 • signed + -random.r2 • vk.h0
  let state : Hidden C :=
    { committing := ((ProverCommitting.new.commit d none random.d).1.commit vk.h0 none random.h0₂).1
      secrets := [-random.r1⁻¹, sig.s - random.r2 * random.r1⁻¹]
      blindings := blindings' }
  obtain ⟨vc1, hvc1, hcommits1⟩ := finish_pair aPrime vk.h0 random.aPrime random.h0₁
  obtain ⟨state', hrun, hbalanced, hgens, hsecrets⟩ := Hidden.foldlM_commit state random.message
    hlen (fun i hi => (mem_hiddenIndices.mp hi).left) hcount'
    ((ProverCommitting.balanced_new.commit ..).commit ..)
  obtain ⟨vc2, hvc2, hcommits2⟩ := hbalanced.finish_eq_ok BBSErrorKind
  refine ⟨⟨aPrime, random.r1 • signed - sig.e • aPrime, d, vc1, [-sig.e, random.r2], vc2,
    state'.secrets⟩, ?_, rfl, rfl, rfl, hcommits1, rfl, ?_, hsecrets⟩
  · rw [init, if_neg (not_not.mpr hlen)]
    simp only [hindices, hblindings', computeBConstTime_eq_signed hlen, ok_bind]
    exact bind_eq_ok_iff.mpr ⟨vc1, hvc1, bind_eq_ok_iff.mpr
      ⟨state', hrun, bind_eq_ok_iff.mpr ⟨vc2, hvc2, rfl⟩⟩⟩
  · rw [hgens] at hcommits2
    exact hcommits2

namespace Prepared

variable {c : FieldElement C} {order : HashOrder ℕ} {revealedMsgs : IndexMap (FieldElement C)}

theorem sub_eq_commit (h : pok.Prepared gen sig vk messages revealed random) :
    pok.aBar - pok.d = commit [pok.aPrime, vk.h0] pok.secrets1 := by
  rw [h.aBar, h.d, h.secrets1, commit_cons, commit_cons, commit_nil]
  module

theorem commit_secrets2_eq (h : pok.Prepared gen sig vk messages revealed random)
    (hr : random.r1 ≠ 0) (hlen : messages.length = vk.messageCount) :
    commit ([pok.d, vk.h0] ++ (hiddenIndices vk.messageCount revealed).map (vk.h.getD · 0))
        pok.secrets2 =
      -(gen.g1 + commit ((revealedIndices vk.messageCount revealed).map (vk.h.getD · 0))
        ((revealedIndices vk.messageCount revealed).map (messages.getD · 0))) := by
  have hcount : vk.h.length = vk.messageCount := rfl
  have hr3 : random.r1⁻¹ • pok.d =
      vk.signed gen sig.s messages - (random.r2 * random.r1⁻¹) • vk.h0 := by
    rw [h.d, smul_add, inv_smul_smul₀ hr]
    module
  simp only [h.secrets2, List.cons_append, List.nil_append, commit_cons, neg_smul, hr3,
    PublicKey.signed, commit_split hcount hlen revealed]
  module

theorem neg_disclosed_eq_commit (h : pok.Prepared gen sig vk messages revealed random)
    (hr : random.r1 ≠ 0) (hlen : messages.length = vk.messageCount)
    (hlt : ∀ i ∈ revealed, i < vk.messageCount) (hrev : Reveals revealedMsgs messages revealed) :
    -PoKOfSignatureProof.disclosed gen vk revealedMsgs =
      commit ([pok.d, vk.h0] ++ (hiddenIndices vk.messageCount revealed).map (vk.h.getD · 0))
        pok.secrets2 := by
  have hkeys : revealedMsgs.keys = revealed := hrev.keys_eq (hlen ▸ hlt)
  rw [h.commit_secrets2_eq hr hlen, hrev.map_getD (hlen ▸ hlt), PoKOfSignatureProof.disclosed,
    hkeys]

theorem pair_eq (h : pok.Prepared gen sig vk messages revealed random)
    (hsigns : sig.Signs gen messages vk) :
    C.pair pok.aPrime vk.w = C.pair pok.aBar gen.g2 := by
  have hsigns' : C.pair sig.a vk.w =
      C.pair (vk.signed gen sig.s messages) gen.g2 - sig.e • C.pair sig.a gen.g2 := by
    rw [Signature.Signs, C.pair_add_right, C.pair_smul_right] at hsigns
    rw [← hsigns, add_sub_cancel_left]
  rw [h.aBar, h.aPrime, C.pair_sub_left, C.pair_smul_left, C.pair_smul_left, C.pair_smul_left,
    C.pair_smul_left, hsigns']
  module

end Prepared

-- A proof of a valid signature is accepted with exactly the revealed messages.
theorem verify_of_prepared {c : FieldElement C}
    (h : pok.Prepared gen sig vk messages revealed random) (hvk : vk.validate = .ok ())
    (hsigns : sig.Signs gen messages vk) (ha : sig.a ≠ 0) (hr : random.r1 ≠ 0)
    (hlen : messages.length = vk.messageCount) (hlt : ∀ i ∈ revealed, i < vk.messageCount) :
    ∃ proof, pok.genProof c = .ok proof ∧ ∀ (order : HashOrder ℕ) revealedMsgs,
      Reveals revealedMsgs messages revealed →
        proof.verify order gen vk revealedMsgs c = .ok true := by
  obtain ⟨proof1, hproof1, hverify1⟩ := h.vc1.genProof (c := c) (by rw [h.secrets1]; rfl)
    h.sub_eq_commit
  have hlen2 : pok.secrets2.length =
      ([pok.d, vk.h0] ++ (hiddenIndices vk.messageCount revealed).map (vk.h.getD · 0)).length := by
    simp [h.secrets2]
  obtain ⟨proof2, hproof2, hverify2⟩ := h.vc2.genProof (c := c) hlen2 rfl
  refine ⟨⟨pok.aPrime, pok.aBar, pok.d, proof1, proof2⟩, ?_, fun order revealedMsgs hrev => ?_⟩
  · simp only [genProof, hproof1, hproof2, mapKind, ok_bind]
    rfl
  · have hkeys : revealedMsgs.keys = revealed := hrev.keys_eq (hlen ▸ hlt)
    rw [PoKOfSignatureProof.verify_eq_ok_true_iff]
    exact
      { validate := hvk
        lt := hkeys.symm ▸ hlt
        aPrime_ne := by
          rw [h.aPrime]
          exact smul_ne_zero hr ha
        pair_eq := h.pair_eq hsigns
        vc1 := hverify1
        vc2 := by
          rw [h.neg_disclosed_eq_commit hr hlen hlt hrev, PoKOfSignatureProof.hiddenBases, hkeys]
          exact hverify2 }

end PoKOfSignature

-- From the key pair to the accepted proof, over a commitment to the first `j` messages.
theorem issued_and_presented {x e : FieldElement C} {h : ℕ → PointG1 C}
    {random : PoKOfSignature.Random C} {blindings : Option (List (FieldElement C))}
    {revealed : IndexSet} (order : HashOrder ℕ) (s blinding c : FieldElement C) (hk : 1 ≤ k)
    (hg2 : gen.g2 ≠ 0) (hx : x ≠ 0) (hh0 : h0 ≠ 0) (hh : ∀ i < k, h i ≠ 0)
    (hlen : messages.length = k) (hj : j ≤ k) (he : x + e ≠ 0) (hr : random.r1 ≠ 0)
    (hlt : ∀ i ∈ revealed, i < k)
    (hblindings : ∀ b ∈ blindings, b.length = k - revealed.card) :
    ∃ vk sk, generate gen k x h h0 = .ok (vk, sk) ∧
      let commitment := blinding • vk.h0 + commit (vk.h.take j) (messages.take j)
      ∃ sig, Signature.newWithCommittedMessages gen commitment (messages.drop j) sk vk e s =
          .ok sig ∧
        let sig := sig.getUnblindedSignature blinding
        sig.verify gen messages vk = .ok true ∧
          (sig.a ≠ 0 → ∃ pok,
            PoKOfSignature.init order gen sig vk messages blindings revealed random = .ok pok ∧
            ∃ proof, pok.genProof c = .ok proof ∧ ∀ (order : HashOrder ℕ) revealedMsgs,
              Reveals revealedMsgs messages revealed →
                proof.verify order gen vk revealedMsgs c = .ok true) := by
  let vk : PublicKey C := { w := x • gen.g2, h0, h := (List.range k).map h }
  have hgenerate : generate gen k x h h0 = .ok (vk, x) := if_neg (Nat.one_le_iff_ne_zero.mp hk)
  have hcount : vk.messageCount = k := by simp [vk, PublicKey.messageCount]
  have hvalidate : vk.validate = .ok () := by
    rw [PublicKey.validate_eq_ok_iff]
    refine ⟨hh0, smul_ne_zero hx hg2, fun hmem => ?_⟩
    obtain ⟨i, hi, hzero⟩ := List.mem_map.mp hmem
    exact hh i (List.mem_range.mp hi) hzero
  rw [← hcount] at hlen hj hlt hblindings
  obtain ⟨sig, hsig, hsigns⟩ := Signature.signs_of_committed (s := s) rfl he hlen hj rfl
  refine ⟨vk, x, hgenerate, sig, hsig, ?_, fun ha => ?_⟩
  · exact Signature.verify_eq_ok_true_iff.mpr ⟨hlen, hsigns⟩
  · obtain ⟨pok, hinit, hprepared⟩ := PoKOfSignature.init_eq_ok gen
      (sig.getUnblindedSignature blinding) random order hlen hlt hblindings
    exact ⟨pok, hinit, PoKOfSignature.verify_of_prepared hprepared hvalidate hsigns ha hr hlen hlt⟩

def sampleBase (i : ℕ) : PointG1 curveMod7 :=
  mod7 (i + 2)

theorem issued_and_presented_two :
    let gen := PoKOfSignatureProof.sampleGenerators
    let random : PoKOfSignature.Random curveMod7 :=
      ⟨mod7 2, mod7 3, mod7 4, mod7 5, mod7 6, mod7 1, mod7⟩
    ∃ vk sk sig pok proof,
      generate gen 2 (mod7 3) sampleBase (mod7 5) = .ok (vk, sk) ∧
      Signature.newWithCommittedMessages gen
        (mod7 2 • vk.h0 + commit (vk.h.take 1) [mod7 1]) [mod7 6] sk vk (mod7 1) (mod7 6) =
          .ok sig ∧
      (sig.getUnblindedSignature (mod7 2)).verify gen [mod7 1, mod7 6] vk = .ok true ∧
      PoKOfSignature.init ascending gen (sig.getUnblindedSignature (mod7 2)) vk
        [mod7 1, mod7 6] (some [mod7 4]) {1} random = .ok pok ∧
      pok.genProof (mod7 5) = .ok proof ∧
      proof.verify ascending gen vk (Finmap.singleton 1 (mod7 6)) (mod7 5) = .ok true := by
  intro gen random
  have hg2 : gen.g2 ≠ 0 := by decide
  have hx : mod7 3 ≠ 0 := by decide
  have hh0 : (mod7 5 : PointG1 curveMod7) ≠ 0 := by decide
  have hh : ∀ i < 2, sampleBase i ≠ 0 := by decide
  have he : mod7 3 + mod7 1 ≠ 0 := by decide
  have hr : random.r1 ≠ 0 := by decide
  have hblindings : ∀ b ∈ some [mod7 4], b.length = 2 - ({1} : IndexSet).card := by simp
  obtain ⟨vk, sk, hkeys, sig, hsig, hverify, hpresent⟩ := issued_and_presented ascending (mod7 6)
    (mod7 2) (mod7 5) (Nat.le_succ 1) hg2 hx hh0 hh (rfl : [mod7 1, mod7 6].length = 2)
    (Nat.le_succ 1) he hr (by decide) hblindings
  have hvk : (vk, sk) = (⟨mod7 5, [mod7 2, mod7 3], mod7 3⟩, mod7 3) :=
    Except.ok.inj <| hkeys.symm.trans rfl
  obtain ⟨rfl, rfl⟩ := Prod.mk.inj hvk
  have hsig' : sig = ⟨(mod7 3 + mod7 1)⁻¹ • mod7 5, mod7 1, mod7 6⟩ :=
    Except.ok.inj <| hsig.symm.trans rfl
  have ha : (mod7 3 + mod7 1)⁻¹ • mod7 5 ≠ 0 :=
    smul_ne_zero (inv_ne_zero (by decide)) (by decide)
  obtain ⟨pok, hinit, proof, hproof, haccept⟩ := hpresent (by rw [hsig']; exact ha)
  exact ⟨_, _, sig, pok, proof, hkeys, hsig, hverify, hinit, hproof,
    haccept ascending _ (.singleton rfl)⟩

end Ursa.Bbs
