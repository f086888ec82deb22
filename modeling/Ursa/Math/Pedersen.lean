import Mathlib.Algebra.BigOperators.GroupWithZero.Action
import Mathlib.Tactic.Abel
import Ursa.Math.Sigma

-- Commitments to vectors of exponents, and the Σ-protocol that opens them.
namespace Pedersen

variable {F M ι : Type} [Field F] [AddCommGroup M] [Module F M]
variable {gens gens' : List M} {xs xs' : List F} {x : M} {c c' : F}

def commit (gens : List M) (exponents : List F) : M :=
  (List.zipWith (· • ·) exponents gens).sum

@[simp]
theorem commit_nil : commit ([] : List M) xs = 0 := by
  simp [commit]

@[simp]
theorem commit_cons {g : M} {x : F} :
    commit (g :: gens) (x :: xs) = x • g + commit gens xs := by
  simp [commit]

theorem commit_append (h : gens.length = xs.length) :
    commit (gens ++ gens') (xs ++ xs') = commit gens xs + commit gens' xs' := by
  rw [commit, List.zipWith_append h.symm, List.sum_append, commit, commit]

theorem commit_concat {g : M} {x : F} (h : gens.length = xs.length) :
    commit (gens ++ [g]) (xs ++ [x]) = commit gens xs + x • g := by
  rw [commit_append h, commit_cons, commit_nil, add_zero]

theorem commit_take_add_drop (h : gens.length = xs.length) (j : ℕ) :
    commit (gens.take j) (xs.take j) + commit (gens.drop j) (xs.drop j) = commit gens xs := by
  have htake : (gens.take j).length = (xs.take j).length := by
    rw [List.length_take, List.length_take, h]
  rw [← commit_append htake, List.take_append_drop, List.take_append_drop]

theorem commit_map (l : List ι) (g : ι → M) (x : ι → F) :
    commit (l.map g) (l.map x) = (l.map fun i => x i • g i).sum := by
  rw [commit, List.zipWith_map, List.zipWith_self]

-- Generators with known discrete logarithms.
theorem commit_smul (ys : List F) (g : M) : commit (ys.map (· • g)) xs = commit ys xs • g := by
  induction ys generalizing xs
  case nil => rw [List.map_nil, commit_nil, commit_nil, zero_smul]
  case cons y ys hi =>
    cases xs with
    | nil => simp [commit]
    | cons x xs =>
      rw [List.map_cons, commit_cons, commit_cons, hi, add_smul, smul_smul, smul_eq_mul]

-- Two vectors of exponents combined entry by entry.
theorem commit_zipWith {f : F → F → F} (a b : F) (hf : ∀ x x', f x x' = a * x + b * x')
    (h : gens.length = xs.length) (h' : gens.length = xs'.length) :
    commit gens (List.zipWith f xs xs') = a • commit gens xs + b • commit gens xs' := by
  induction gens generalizing xs xs'
  case nil => simp
  case cons g gens hi =>
    obtain ⟨x, xs, rfl⟩ := List.exists_cons_of_length_eq_add_one h.symm
    obtain ⟨x', xs', rfl⟩ := List.exists_cons_of_length_eq_add_one h'.symm
    rw [List.zipWith_cons_cons, commit_cons, commit_cons, commit_cons, hf,
      hi (Nat.succ.inj h) (Nat.succ.inj h')]
    module

-- The answer to the challenge `c`, and what two answers give away.
def respond (c : F) (blindings secrets : List F) : List F :=
  List.zipWith (fun b s => b - c * s) blindings secrets

def extract (c c' : F) (responses responses' : List F) : List F :=
  List.zipWith (fun r r' => (r' - r) / (c - c')) responses responses'

theorem length_respond (h : xs.length = xs'.length) : (respond c xs xs').length = xs.length := by
  rw [respond, List.length_zipWith, h, min_self]

theorem length_extract (h : xs.length = xs'.length) :
    (extract c c' xs xs').length = xs.length := by
  rw [extract, List.length_zipWith, h, min_self]

theorem commit_respond (h : gens.length = xs.length) (h' : gens.length = xs'.length) :
    commit gens (respond c xs xs') + c • commit gens xs' = commit gens xs := by
  have hf (b s : F) : b - c * s = 1 * b + -c * s := by ring
  rw [respond, commit_zipWith 1 (-c) hf h h']
  module

theorem eq_commit_extract (hc : c ≠ c') (h : gens.length = xs.length)
    (h' : gens.length = xs'.length) (hx : commit gens xs + c • x = commit gens xs' + c' • x) :
    x = commit gens (extract c c' xs xs') := by
  have hd : c - c' ≠ 0 := sub_ne_zero.mpr hc
  have hf (r r' : F) : (r' - r) / (c - c') = -(c - c')⁻¹ * r + (c - c')⁻¹ * r' := by ring
  have hw : (c - c') • commit gens (extract c c' xs xs') = commit gens xs' - commit gens xs := by
    rw [extract, commit_zipWith _ _ hf h h', neg_smul, smul_add, smul_neg, smul_inv_smul₀ hd,
      smul_inv_smul₀ hd]
    abel
  exact Sigma.extract_linear hc hw <| by rw [add_comm, hx, add_comm]

-- The sum over a list, the elements of a set apart from the others.
theorem sum_map_filter (l : List ι) (p : ι → Prop) [DecidablePred p] (f : ι → M) :
    ((l.filter (p ·)).map f).sum + ((l.filter (¬p ·)).map f).sum = (l.map f).sum := by
  have hperm : (l.filter (p ·) ++ l.filter (¬p ·)).Perm l := by
    simpa only [decide_not] using List.filter_append_perm (p ·) l
  rw [← List.sum_append, ← List.map_append]
  exact (hperm.map f).sum_eq

end Pedersen
