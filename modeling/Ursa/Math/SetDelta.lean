import Mathlib.Algebra.BigOperators.Group.Finset.Basic
import Mathlib.Tactic.Abel

namespace Ursa

-- The change of a finite set: the elements that join it and those that leave it.
@[ext]
structure SetDelta (α : Type) where
  added : Finset α
  removed : Finset α

namespace SetDelta

variable {α M : Type} [DecidableEq α] [AddCommGroup M] {U V W : Finset α} {d e : SetDelta α}

-- The least change that turns `U` into `V`.
def between (U V : Finset α) : SetDelta α where
  added := V \ U
  removed := U \ V

-- `d` may be applied to `U`, and the result is `V`.
structure Leads (d : SetDelta α) (U V : Finset α) : Prop where
  disjoint : Disjoint d.added U
  subset : d.removed ⊆ U
  eq : V = U \ d.removed ∪ d.added

-- Later steps read the sets that the steps before have changed.
def merge (d e : SetDelta α) : SetDelta α :=
  let added := d.added ∪ (e.added \ d.removed)
  let removed := d.removed ∪ (e.removed \ added)
  { added := added \ e.removed, removed := removed \ e.added }

theorem leads_iff : d.Leads U V ↔ d = between U V := by
  constructor
  case mp =>
    rintro ⟨hdisj, hsub, rfl⟩
    rw [Finset.disjoint_left] at hdisj
    ext x <;> simp only [between, Finset.mem_sdiff, Finset.mem_union]
    case added => grind
    case removed => grind
  case mpr =>
    rintro rfl
    refine ⟨Finset.sdiff_disjoint, Finset.sdiff_subset, ?_⟩
    ext x
    simp only [between, Finset.mem_union, Finset.mem_sdiff]
    tauto

theorem between_self : between U U = ⟨∅, ∅⟩ := by
  simp [between]

theorem merge_between : (between U V).merge (between V W) = between U W := by
  ext x <;> simp only [merge, between, Finset.mem_sdiff, Finset.mem_union] <;> tauto

theorem disjoint_between : Disjoint (between U V).added (between U V).removed :=
  Finset.disjoint_left.mpr fun _ ha hr =>
    (Finset.mem_sdiff.mp hr).2 (Finset.mem_sdiff.mp ha).1

-- What a sum over the set gains by the change.
def total (d : SetDelta α) (f : α → M) : M :=
  ∑ x ∈ d.added, f x - ∑ x ∈ d.removed, f x

theorem total_between (f : α → M) : (between U V).total f = ∑ x ∈ V, f x - ∑ x ∈ U, f x := by
  have hV := Finset.sum_sdiff (f := f) (Finset.inter_subset_left : V ∩ U ⊆ V)
  have hU := Finset.sum_sdiff (f := f) (Finset.inter_subset_right : V ∩ U ⊆ U)
  rw [Finset.sdiff_inter_self_left] at hV
  rw [Finset.inter_comm, Finset.sdiff_inter_self_left, Finset.inter_comm] at hU
  simp only [total, between, ← hV, ← hU]
  abel

end SetDelta
end Ursa
