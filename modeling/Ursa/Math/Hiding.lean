import Mathlib.Data.List.GetD
import Ursa.Math.Pedersen
import Ursa.Math.StatDist

-- Perfect hiding: what is sent of two secrets behind one public value has the same distribution.

namespace StatDist

variable {α ι κ : Type} [Fintype ι] [Nonempty ι] [Fintype κ] [Nonempty κ] {f : ι → α} {g : κ → α}

-- The draws of the one side are matched with those of the other.
theorem drawn_eq_of_equiv (e : ι ≃ κ) (h : ∀ i, f i = g (e i)) : drawn f = drawn g := by
  classical
  have hmap : (PMF.uniformOfFintype ι).map e = PMF.uniformOfFintype κ := by
    ext k
    rw [PMF.map_apply, tsum_eq_single (e.symm k), e.apply_symm_apply, if_pos rfl,
      PMF.uniformOfFintype_apply, PMF.uniformOfFintype_apply, Fintype.card_congr e]
    intro i hi
    exact if_neg fun hk => hi <| by rw [hk, e.symm_apply_apply]
  rw [drawn, drawn, ← hmap, PMF.map_comp]
  exact congrArg (PMF.map · _) <| funext h

end StatDist

namespace Sigma

variable {F S M : Type} [Field F] [AddCommGroup S] [Module F S] [AddCommGroup M] [Module F M]
variable {φ : S →ₗ[F] M} {δ : S}

-- A blinding of the one secret, and the one of the other secret with the same commitment and the
-- same answer: they differ by a multiple of the difference `δ` of the secrets. The challenge may
-- be a hash of the commitment.
theorem map_shift (h : φ δ = 0) (c : F) (b : S) : φ (b + c • δ) = φ b := by
  rw [map_add, map_smul, h, smul_zero, add_zero]

theorem shift_left_inv (challenge : M → F) (h : φ δ = 0) :
    Function.LeftInverse (fun b => b + challenge (φ b) • -δ) fun b => b + challenge (φ b) • δ := by
  intro b
  dsimp only
  rw [map_shift h, smul_neg, add_neg_cancel_right]

theorem shift_right_inv (challenge : M → F) (h : φ δ = 0) :
    Function.RightInverse (fun b => b + challenge (φ b) • -δ) fun b => b + challenge (φ b) • δ := by
  have hneg : φ (-δ) = 0 := by rw [map_neg, h, neg_zero]
  have hleft := shift_left_inv challenge hneg
  rw [neg_neg] at hleft
  exact hleft

def shift (φ : S →ₗ[F] M) (challenge : M → F) (δ : S) (h : φ δ = 0) : S ≃ S where
  toFun b := b + challenge (φ b) • δ
  invFun b := b + challenge (φ b) • -δ
  left_inv := shift_left_inv challenge h
  right_inv := shift_right_inv challenge h

end Sigma

namespace Pedersen

variable {F M : Type} [Field F] [AddCommGroup M] [Module F M] {gens : List M}

-- Commitments to the blindings that were drawn for the positions of the generators.
def commitDraws (gens : List M) (n : ℕ) : (Fin n → F) →ₗ[F] M :=
  Fintype.linearCombination F fun i : Fin n => gens.getD i 0

theorem commit_ofFn (h : gens.length = n) (b : Fin n → F) :
    commit gens (List.ofFn b) = commitDraws gens n b := by
  have hzip : List.zipWith (· • ·) (List.ofFn b) gens =
      List.ofFn fun i : Fin n => b i • gens.getD i 0 := by
    refine List.ext_getElem (by simp [h]) fun i hi _ => ?_
    have hlt : i < gens.length := by
      rw [List.length_zipWith, List.length_ofFn, h, min_self] at hi
      rwa [h]
    simp [List.getElem_zipWith, hlt]
  rw [commit, hzip, List.sum_ofFn, commitDraws, Fintype.linearCombination_apply]

-- How the secrets differ at the positions.
def difference (n : ℕ) (secrets secrets' : List F) (i : Fin n) : F :=
  secrets'.getD i 0 - secrets.getD i 0

theorem ofFn_getD {secrets : List F} (h : secrets.length = n) :
    List.ofFn (fun i : Fin n => secrets.getD i 0) = secrets := by
  refine List.ext_getElem (by simp [h]) fun i _ hi => ?_
  rw [List.getElem_ofFn, List.getD_eq_getElem _ _ hi]

theorem commitDraws_difference {secrets secrets' : List F} (h : gens.length = n)
    (hs : secrets.length = n) (hs' : secrets'.length = n)
    (heq : commit gens secrets = commit gens secrets') :
    commitDraws gens n (difference n secrets secrets') = 0 := by
  have hsub : difference n secrets secrets' =
      (fun i : Fin n => secrets'.getD i 0) - fun i : Fin n => secrets.getD i 0 := rfl
  rw [hsub, map_sub, ← commit_ofFn h, ← commit_ofFn h, ofFn_getD hs, ofFn_getD hs', heq, sub_self]

theorem respond_ofFn {secrets : List F} (h : secrets.length = n) (c : F) (b : Fin n → F) :
    respond c (List.ofFn b) secrets = List.ofFn fun i => b i - c * secrets.getD i 0 := by
  refine List.ext_getElem (by simp [respond, h]) fun i hi hi' => ?_
  have hlt : i < secrets.length := by
    rw [List.length_ofFn] at hi'
    rwa [h]
  simp [respond, hlt]

-- The answers are the same.
theorem respond_shift {secrets secrets' : List F} (hs : secrets.length = n)
    (hs' : secrets'.length = n) (c : F) (b : Fin n → F) :
    respond c (List.ofFn (b + c • difference n secrets secrets')) secrets' =
      respond c (List.ofFn b) secrets := by
  rw [respond_ofFn hs, respond_ofFn hs']
  congr 1
  ext i
  simp only [Pi.add_apply, Pi.smul_apply, smul_eq_mul, difference]
  ring

end Pedersen
