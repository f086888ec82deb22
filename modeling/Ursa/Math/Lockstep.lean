import Mathlib.Data.List.Infix

-- Two machines that are given the same inputs.
namespace Lockstep

variable {σ α : Type} (f g : σ → α → σ) {P : σ → α → Prop} {s : σ} {as : List α}

-- They are in the same state after every input.
def Agree (as : List α) (s : σ) : Prop :=
  ∀ pre, pre <+: as → pre.foldl f s = pre.foldl g s

-- `P` holds whenever `g` takes a step.
def Always (P : σ → α → Prop) : List α → σ → Prop
  | [], _      => True
  | a :: as, s => P s a ∧ Always P as (g s a)

variable {f g}

theorem agree_cons : Agree f g (a :: as) s ↔ f s a = g s a ∧ Agree f g as (g s a) := by
  constructor
  case mp =>
    intro h
    have hstep : f s a = g s a := h [a] <| List.cons_prefix_cons.mpr ⟨rfl, List.nil_prefix⟩
    refine ⟨hstep, fun pre hpre => ?_⟩
    have hcons := h (a :: pre) <| List.cons_prefix_cons.mpr ⟨rfl, hpre⟩
    rwa [List.foldl_cons, List.foldl_cons, hstep] at hcons
  case mpr =>
    rintro ⟨hstep, hrest⟩ pre hpre
    obtain rfl | ⟨rest, rfl, hprefix⟩ := List.prefix_cons_iff.mp hpre
    case inl => rfl
    case inr => rw [List.foldl_cons, List.foldl_cons, hstep, hrest rest hprefix]

-- A step on which they differ is found out at once.
theorem agree_iff (h : ∀ s a, f s a = g s a ↔ P s a) : Agree f g as s ↔ Always g P as s := by
  induction as generalizing s
  case nil =>
    refine iff_of_true (fun pre hpre => ?_) trivial
    rw [List.prefix_nil.mp hpre]
    rfl
  case cons a as hi => rw [agree_cons, h, hi, Always]

end Lockstep
