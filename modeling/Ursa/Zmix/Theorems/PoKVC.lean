import Ursa.Math.Pedersen
import Ursa.Zmix.PoKVC

namespace Ursa

open UrsaCryptoResult Pedersen

namespace ZmixResult

variable {Kind Kind' α : Type} {x : ZmixResult Kind α}

@[simp]
theorem unwrap_some : (unwrap (some a) : ZmixResult Kind α) = .ok a :=
  rfl

theorem nth_eq_getElem {l : List α} (h : i < l.length) :
    (nth l i : ZmixResult Kind α) = .ok l[i] := by
  rw [nth, List.getElem?_eq_getElem h]

theorem nth_of_lt {l : List α} (d : α) (h : i < l.length) :
    (nth l i : ZmixResult Kind α) = .ok (l.getD i d) := by
  rw [nth_eq_getElem h, List.getD_eq_getElem l d h]

theorem mapM_nth {l : List α} {is : List ℕ} (d : α) (h : ∀ i ∈ is, i < l.length) :
    is.mapM (nth l) = (.ok (is.map (l.getD · d)) : ZmixResult Kind (List α)) :=
  mapM_eq_map fun i hi => nth_of_lt d (h i hi)

theorem mapM_range_eq_ok {f : ℕ → ZmixResult Kind α} {l : List α} (hn : l.length = n)
    (h : ∀ i (hi : i < l.length), f i = .ok l[i]) : (List.range n).mapM f = .ok l := by
  rw [mapM_eq_ok_iff, List.forall₂_iff_get]
  refine ⟨by rw [List.length_range, hn], fun i _ hi => ?_⟩
  simpa using h i hi

theorem mapM_nth_drop {l : List α} (h : offset + n = l.length) :
    (List.range n).mapM (fun i => nth l (offset + i)) =
      (.ok (l.drop offset) : ZmixResult Kind (List α)) := by
  refine mapM_range_eq_ok (by rw [List.length_drop]; omega) fun i hi => ?_
  rw [List.length_drop] at hi
  rw [nth_eq_getElem (by omega), List.getElem_drop]

@[simp]
theorem mapKind_eq_ok_iff {f : Kind → Kind'} : x.mapKind f = .ok a ↔ x = .ok a := by
  obtain (kind | msg) | a := x <;> simp [mapKind]

@[simp]
theorem ite_fail_eq_ok_iff [Decidable p] {kind : Kind} :
    (if p then fail kind else x) = .ok a ↔ ¬p ∧ x = .ok a :=
  ite_error_eq_ok_iff

-- The ways in which a verification goes on.
theorem seq_eq_ok_iff {x : ZmixResult Kind Unit} {y : ZmixResult Kind α} :
    (x >>= fun _ => y) = .ok a ↔ x = .ok () ∧ y = .ok a := by
  rw [bind_eq_ok_iff]
  exact ⟨fun ⟨_, hx, hy⟩ => ⟨hx, hy⟩, fun ⟨hx, hy⟩ => ⟨(), hx, hy⟩⟩

theorem ite_false_eq_ok_true_iff [Decidable p] {x : ZmixResult Kind Bool} :
    (if p then pure false else x) = .ok true ↔ ¬p ∧ x = .ok true := by
  split <;> simp_all [pure, Except.pure]

theorem guard_eq_ok_true_iff {x y : ZmixResult Kind Bool} :
    (x >>= fun valid => if !valid then pure false else y) = .ok true ↔
      x = .ok true ∧ y = .ok true := by
  rw [bind_eq_ok_iff]
  constructor
  case mp =>
    rintro ⟨valid, hx, h⟩
    obtain ⟨hvalid, hy⟩ := ite_false_eq_ok_true_iff.mp h
    cases valid
    · exact absurd rfl hvalid
    · exact ⟨hx, hy⟩
  case mpr =>
    rintro ⟨hx, hy⟩
    exact ⟨true, hx, hy⟩

end ZmixResult

open ZmixResult

variable {C : Curve} {G : Type}

-- The second point is negated, so that the two pairings are compared.
theorem GT.isOne_ate2Pairing_neg {g1 h1 : PointG1 C} {g2 h2 : PointG2 C} :
    GT.isOne (GT.ate2Pairing g1 g2 (-h1) h2) = true ↔ C.pair g1 g2 = C.pair h1 h2 := by
  rw [isOne, ate2Pairing, Curve.pair_neg_left, decide_eq_true_eq, ← sub_eq_add_neg, sub_eq_zero]

namespace ProverCommitting

-- The two lists grow together.
def Balanced (self : ProverCommitting C G) : Prop :=
  self.gens.length = self.blindings.length

theorem balanced_new : (new : ProverCommitting C G).Balanced :=
  rfl

theorem Balanced.commit {self : ProverCommitting C G} (h : self.Balanced) (gen : G)
    (blinding : Option (FieldElement C)) (random : FieldElement C) :
    (self.commit gen blinding random).1.Balanced := by
  rw [Balanced] at h
  simp [Balanced, ProverCommitting.commit, h]

end ProverCommitting

variable [AddCommGroup G] [Module (FieldElement C) G]

theorem multiScalarMul_of_length_eq {points : List G} {scalars : List (FieldElement C)}
    (h : points.length = scalars.length) :
    multiScalarMul points scalars = some (commit points scalars) :=
  if_pos h

-- What the commitment phase leaves behind for the generators `gens`.
structure ProverCommitted.Commits (committed : ProverCommitted C G) (gens : List G) : Prop where
  gens_eq : committed.gens = gens
  length_eq : committed.blindings.length = gens.length
  commitment_eq : committed.commitment = commit gens committed.blindings

theorem ProverCommitting.Balanced.finish_eq_ok (Kind : Type) {self : ProverCommitting C G}
    (h : self.Balanced) : ∃ committed, (self.finish : ZmixResult Kind _) = .ok committed ∧
      committed.Commits self.gens := by
  refine ⟨⟨self.gens, self.blindings, Pedersen.commit self.gens self.blindings⟩, ?_, rfl, ?_, rfl⟩
  · rw [finish, multiScalarMul_of_length_eq h]
    rfl
  · exact Eq.symm h

theorem ProverCommitted.Commits.genProof_eq_ok {self : ProverCommitted C G}
    {gens : List G} {c : FieldElement C} (h : self.Commits gens) (hlen : secrets.length = gens.length) :
    self.genProof c secrets = .ok ⟨self.commitment, respond c self.blindings secrets⟩ := by
  have hlen' : self.blindings.length = secrets.length := h.length_eq.trans hlen.symm
  have hresponses : (List.range gens.length).mapM (fun i => do
      let blinding ← nth self.blindings i
      let secret ← nth secrets i
      pure (blinding - c * secret)) =
      (.ok (respond c self.blindings secrets) : ZmixResult PoKVCErrorKind _) := by
    refine mapM_range_eq_ok (by rw [length_respond hlen', h.length_eq]) fun i hi => ?_
    have hs : i < secrets.length := by rwa [length_respond hlen', hlen'] at hi
    rw [nth_of_lt 0 (hlen'.symm ▸ hs), ok_bind, nth_of_lt 0 hs, ok_bind]
    simp [respond, pure, Except.pure, hs, hlen'.symm ▸ hs]
  rw [ProverCommitted.genProof, h.gens_eq, if_neg (not_not.mpr hlen), hresponses]
  rfl

variable [DecidableEq G] {gens : List G} {x : G} {c c' : FieldElement C}

theorem ProofVC.verify_eq_ok_true_iff {proof : ProofVC C G} :
    proof.verify gens x c = .ok true ↔ gens.length = proof.responses.length ∧
      commit gens proof.responses + c • x = proof.commitment := by
  rw [verify, ite_fail_eq_ok_iff, not_not]
  refine and_congr_right fun h => ?_
  have hlen : (gens ++ [x]).length = (proof.responses ++ [c]).length := by simp [h]
  simp only [multiScalarMul_of_length_eq hlen, unwrap_some, ok_bind, pure_eq_ok_iff,
    decide_eq_true_eq, sub_eq_zero, commit_concat h]

-- The secrets behind the committed value are answered for any challenge.
theorem ProverCommitted.Commits.genProof {self : ProverCommitted C G} (h : self.Commits gens)
    (hlen : secrets.length = gens.length) (hx : x = Pedersen.commit gens secrets) :
    ∃ proof, self.genProof c secrets = .ok proof ∧ proof.verify gens x c = .ok true := by
  refine ⟨_, h.genProof_eq_ok hlen, ?_⟩
  have hlen' : self.blindings.length = secrets.length := h.length_eq.trans hlen.symm
  rw [ProofVC.verify_eq_ok_true_iff, length_respond hlen', h.length_eq, hx,
    commit_respond h.length_eq.symm hlen.symm, h.commitment_eq]
  exact ⟨rfl, rfl⟩

-- Two answers open the committed value.
theorem ProofVC.eq_commit_extract {proof proof' : ProofVC C G} (hc : c ≠ c')
    (hcommitment : proof.commitment = proof'.commitment) (h : proof.verify gens x c = .ok true)
    (h' : proof'.verify gens x c' = .ok true) :
    (extract c c' proof.responses proof'.responses).length = gens.length ∧
      x = commit gens (extract c c' proof.responses proof'.responses) := by
  rw [verify_eq_ok_true_iff] at h h'
  obtain ⟨hlen, hx⟩ := h
  obtain ⟨hlen', hx'⟩ := h'
  constructor
  · rw [length_extract (hlen.symm.trans hlen'), hlen]
  · refine Pedersen.eq_commit_extract hc hlen hlen' ?_
    rw [hx, hx', hcommitment]

end Ursa
