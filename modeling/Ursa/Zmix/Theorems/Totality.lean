import Ursa.Zmix.Theorems.Bbs
import Ursa.Zmix.Theorems.Ps

namespace Ursa

open ZmixResult
open UrsaCryptoResult (bind_eq_ok_iff mapM_eq_ok_iff ok_bind)
open UrsaCryptoResult (error_bind_iff not_error_bind not_error_ok)

namespace ZmixResult

variable {Kind Kind' α β : Type} {x : ZmixResult Kind α} {l : List α}

def Panics (x : ZmixResult Kind α) : Prop :=
  ∃ msg, x = .error (.panic msg)

theorem panics_bind_iff {f : α → ZmixResult Kind β} :
    Panics (x >>= f) ↔ Panics x ∨ ∃ a, x = .ok a ∧ Panics (f a) :=
  error_bind_iff

theorem not_panics_bind {f : α → ZmixResult Kind β} (hx : ¬Panics x) (hf : ∀ a, ¬Panics (f a)) :
    ¬Panics (x >>= f) :=
  not_error_bind hx fun a _ => hf a

theorem not_panics_ok {a : α} : ¬Panics (.ok a : ZmixResult Kind α) :=
  not_error_ok

theorem not_panics_pure {a : α} : ¬Panics (pure a : ZmixResult Kind α) :=
  not_panics_ok

theorem not_panics_fail {kind : Kind} : ¬Panics (fail kind : ZmixResult Kind α) := by
  rintro ⟨_, h⟩
  cases h

theorem panics_mapKind_iff {f : Kind → Kind'} : Panics (x.mapKind f) ↔ Panics x := by
  obtain (kind | msg) | a := x <;> simp [Panics, mapKind]

theorem panics_usizeSub_iff : Panics (usizeSub a b : ZmixResult Kind ℕ) ↔ a < b := by
  unfold usizeSub
  split
  case isTrue h => exact iff_of_false not_panics_ok h.not_gt
  case isFalse h => exact iff_of_true ⟨_, rfl⟩ <| not_le.mp h

theorem panics_nth_iff : Panics (nth l i : ZmixResult Kind α) ↔ l.length ≤ i := by
  obtain h | h := lt_or_ge i l.length
  case inl =>
    rw [nth_eq_getElem h]
    exact iff_of_false not_panics_ok h.not_ge
  case inr =>
    rw [nth, List.getElem?_eq_none h]
    exact iff_of_true ⟨_, rfl⟩ h

theorem panics_mapM_nth_iff {is : List ℕ} :
    Panics (is.mapM (nth l) : ZmixResult Kind (List α)) ↔ ∃ i ∈ is, l.length ≤ i := by
  induction is
  case nil => exact iff_of_false not_panics_pure <| by simp
  case cons i is hi =>
    have hrest (a : α) : Panics (do let as ← is.mapM (nth l); pure (a :: as) : ZmixResult Kind _) ↔
        ∃ i ∈ is, l.length ≤ i := by
      rw [panics_bind_iff, hi, or_iff_left]
      rintro ⟨_, -, h⟩
      exact not_panics_pure h
    rw [List.mapM_cons, panics_bind_iff, panics_nth_iff, List.exists_mem_cons_iff]
    simp only [hrest]
    obtain h | h := lt_or_ge i l.length
    case inl => simp [nth_eq_getElem h, h.not_ge]
    case inr => simp [h]

end ZmixResult

theorem not_panics_checkIndices {Kind : Type} {error : String → Kind} {indices : List ℕ} :
    ¬Panics (checkIndices error indices count) := by
  unfold checkIndices
  induction indices
  case nil => exact not_panics_pure
  case cons i indices hi =>
    refine not_panics_bind ?_ fun _ => hi
    dsimp only
    split
    · exact not_panics_fail
    · exact not_panics_pure

theorem ProofVC.not_panics_verify {C : Curve} {G : Type} [AddCommGroup G]
    [Module (FieldElement C) G] [DecidableEq G] {proof : ProofVC C G} {bases : List G} {x : G}
    {c : FieldElement C} : ¬Panics (proof.verify bases x c) := by
  unfold verify
  split
  case isTrue => exact not_panics_fail
  case isFalse h =>
    have hlen : (bases ++ [x]).length = (proof.responses ++ [c]).length := by
      simpa using not_not.mp h
    dsimp only
    rw [multiScalarMul_of_length_eq hlen, unwrap_some, ok_bind]
    exact not_panics_pure

theorem Bbs.PublicKey.not_panics_validate {C : Curve} {vk : PublicKey C} :
    ¬Panics vk.validate := by
  unfold validate
  split
  · exact not_panics_fail
  · exact not_panics_pure

-- The other scheme checks the indices first.
theorem Bbs.PoKOfSignatureProof.not_panics_verify {C : Curve} (order : HashOrder ℕ)
    (gen : Generators C) (proof : PoKOfSignatureProof C) (vk : PublicKey C)
    (revealed : IndexMap (FieldElement C)) (c : FieldElement C) :
    ¬Panics (proof.verify order gen vk revealed c) := by
  have hcount : vk.messageCount = vk.h.length := rfl
  have hexponents :
      (revealedIndices vk.messageCount revealed.keys).mapM (fun i => unwrap (revealed.lookup i)) =
        (.ok ((revealedIndices vk.messageCount revealed.keys).map fun i =>
          (revealed.lookup i).getD 0) : BBSResult _) :=
    mapM_unwrap_lookup fun i hi => (mem_revealedIndices.mp hi).right
  have hvc {vc : ProofVC C (PointG1 C)} {bases : List (PointG1 C)} {x : PointG1 C} :
      ¬Panics ((vc.verify bases x c).mapKind BBSErrorKind.ofPoKVC) :=
    panics_mapKind_iff.not.mpr ProofVC.not_panics_verify
  unfold verify
  refine not_panics_bind PublicKey.not_panics_validate fun _ =>
    not_panics_bind not_panics_checkIndices fun _ => ?_
  split
  case isTrue => exact not_panics_pure
  case isFalse =>
    split
    case isTrue => exact not_panics_pure
    case isFalse =>
      refine not_panics_bind hvc fun valid => ?_
      cases valid with
      | false => exact not_panics_pure
      | true =>
        simp only [mapM_nth_hiddenIndices 0 hcount, mapM_nth_revealedIndices 0 hcount, hexponents,
          ok_bind, disclosed_eq, unwrap_some]
        exact hvc

namespace Ps.PoKOfSignatureProof

variable {C : Curve} {vk : Verkey C} {proof : PoKOfSignatureProof C}
variable {revealed : IndexMap (FieldElement C)} {order : HashOrder ℕ} {c : FieldElement C}

theorem panics_addRevealed_iff : Panics (proof.addRevealed order vk revealed) ↔
    ∃ i ∈ revealed.keys, vk.yTilde.length ≤ i := by
  unfold addRevealed
  split
  case isTrue hempty =>
    rw [hempty]
    exact iff_of_false not_panics_pure <| by simp
  case isFalse =>
    have he : (order.iter revealed.keys).mapM (fun i => unwrap (revealed.lookup i)) =
        (.ok ((order.iter revealed.keys).map fun i => (revealed.lookup i).getD 0) : PSResult _) :=
      mapM_unwrap_lookup fun i hi => (order.mem_iter _ _).mp hi
    rw [panics_bind_iff, panics_mapM_nth_iff]
    simp only [order.mem_iter]
    refine or_iff_left ?_
    -- As many bases as messages are found.
    rintro ⟨b, hb, h⟩
    have hlen := (mapM_eq_ok_iff.mp hb).length_eq
    rw [he, ok_bind, multiScalarMul_of_length_eq (by rw [← hlen, List.length_map]), unwrap_some,
      ok_bind] at h
    exact not_panics_pure h

theorem panics_verify_iff (hvk : vk.validate = .ok ()) :
    Panics (proof.verify order vk revealed c) ↔
      ¬(proof.sig.sigma1 = 0 ∨ proof.sig.sigma2 = 0) ∧
        (vk.yTilde.length < revealed.keys.card ∨
          proof.proofVc.verify (hiddenBases vk revealed.keys) proof.j c = .ok true ∧
            ∃ i ∈ revealed.keys, vk.yTilde.length ≤ i) := by
  rw [verify, hvk, ok_bind]
  split
  case isTrue hzero => exact iff_of_false not_panics_pure fun h => h.left hzero
  case isFalse hzero =>
    obtain hcard | hcard := lt_or_ge vk.yTilde.length revealed.keys.card
    case inl =>
      rw [panics_bind_iff, panics_usizeSub_iff]
      exact iff_of_true (.inl hcard) ⟨hzero, .inl hcard⟩
    case inr =>
      rw [and_iff_right hzero, or_iff_right hcard.not_gt, usizeSub, if_pos hcard, ok_bind,
        mapM_nth_hiddenIndices 0 rfl, ok_bind, panics_bind_iff, panics_mapKind_iff,
        or_iff_right ProofVC.not_panics_verify]
      constructor
      case mp =>
        rintro ⟨valid, hvalid, h⟩
        cases valid with
        | false => exact absurd h not_panics_pure
        | true =>
          obtain h | ⟨_, -, h⟩ := panics_bind_iff.mp h
          · exact ⟨mapKind_eq_ok_iff.mp hvalid, panics_addRevealed_iff.mp h⟩
          · exact absurd h not_panics_pure
      case mpr =>
        rintro ⟨hvalid, h⟩
        exact ⟨true, mapKind_eq_ok_iff.mpr hvalid,
          panics_bind_iff.mpr <| .inl <| panics_addRevealed_iff.mpr h⟩

theorem verify_ne_ok_true (hvk : vk.validate = .ok ())
    (h : ∃ i ∈ revealed.keys, vk.yTilde.length ≤ i) :
    proof.verify order vk revealed c ≠ .ok true := by
  intro htrue
  rw [verify, hvk, ok_bind, ite_false_eq_ok_true_iff] at htrue
  obtain ⟨_, -, htrue⟩ := bind_eq_ok_iff.mp htrue.right
  obtain ⟨_, -, htrue⟩ := bind_eq_ok_iff.mp htrue
  obtain ⟨_, hj, -⟩ := bind_eq_ok_iff.mp (guard_eq_ok_true_iff.mp htrue).right
  have hpanics : Panics (proof.addRevealed order vk revealed) := panics_addRevealed_iff.mpr h
  rw [hj] at hpanics
  exact not_panics_ok hpanics

-- What the caller is promised for a key that was checked.
def Total (order : HashOrder ℕ) (proof : PoKOfSignatureProof C) (vk : Verkey C)
    (revealed : IndexMap (FieldElement C)) (c : FieldElement C) : Prop :=
  ¬Panics (proof.verify order vk revealed c) ∧
    ((∃ i ∈ revealed.keys, vk.yTilde.length ≤ i) → proof.verify order vk revealed c ≠ .ok true)

-- The indices are read only after the first equation, which the hidden bases alone decide.
theorem total_iff (hvk : vk.validate = .ok ()) : Total order proof vk revealed c ↔
    (proof.sig.sigma1 = 0 ∨ proof.sig.sigma2 = 0) ∨
      revealed.keys.card ≤ vk.yTilde.length ∧
        ((∀ i ∈ revealed.keys, i < vk.yTilde.length) ∨
          ¬((hiddenBases vk revealed.keys).length = proof.proofVc.responses.length ∧
            Pedersen.commit (hiddenBases vk revealed.keys) proof.proofVc.responses +
              c • proof.j = proof.proofVc.commitment)) := by
  rw [Total, and_iff_left fun h => verify_ne_ok_true hvk h, panics_verify_iff hvk,
    ProofVC.verify_eq_ok_true_iff]
  push Not
  tauto

theorem total_sample :
    Total ascending (sampleProof [3, 1]) sampleKey (Finmap.singleton 1 (mod7 5)) (mod7 1) :=
  (total_iff rfl).mpr <| .inr ⟨by decide, .inl <| by decide⟩

-- A proof that nothing but the equation of the hidden bases has to fit: the index 2 is revealed
-- under a key for two messages.
def forgedProof : PoKOfSignatureProof curveMod7 where
  sig := ⟨mod7 1, mod7 1⟩
  j := mod7 0
  proofVc := ⟨mod7 0, [mod7 0, mod7 0, mod7 0]⟩

theorem not_total : ¬∀ (C : Curve) (order : HashOrder ℕ) (proof : PoKOfSignatureProof C)
    (vk : Verkey C) (revealed : IndexMap (FieldElement C)) (c : FieldElement C),
    vk.validate = .ok () → Total order proof vk revealed c := by
  intro h
  have hpanics : forgedProof.verify ascending sampleKey (Finmap.singleton 2 (mod7 5)) (mod7 1) =
      .error (.panic "index out of bounds") := rfl
  exact (h _ ascending forgedProof sampleKey (Finmap.singleton 2 (mod7 5)) (mod7 1) rfl).left
    ⟨_, hpanics⟩

end Ps.PoKOfSignatureProof
end Ursa
