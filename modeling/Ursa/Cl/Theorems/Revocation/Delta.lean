import Ursa.Cl.Issuer
import Ursa.Cl.Theorems.NonRevocation
import Ursa.Math.SetDelta

namespace Ursa
namespace RevocationRegistryDelta

variable {C : Curve}

def changes (d : RevocationRegistryDelta C) : SetDelta UInt32 where
  added := d.issued
  removed := d.revoked

-- The delta that takes the valid set from `U` to `V`.
def between (prevAccum : Option (Accumulator C)) (accum : Accumulator C) (U V : HashSet UInt32) :
    RevocationRegistryDelta C where
  prevAccum := prevAccum
  accum := accum
  issued := V \ U
  revoked := U \ V

-- Every delta starts at the valid set and the accumulator at which the one before it ends.
inductive Chain : HashSet UInt32 → List (RevocationRegistryDelta C) → HashSet UInt32 → Prop
  | single : d.changes.Leads U V → Chain U [d] V
  | cons : d.changes.Leads U V → e.prevAccum = some d.accum → Chain V (e :: ds) W →
      Chain U (d :: e :: ds) W

variable {d e : RevocationRegistryDelta C} {U V W : HashSet UInt32}

theorem changes_between : (between p a U V : RevocationRegistryDelta C).changes = .between U V :=
  rfl

theorem between_self {p : Option (Accumulator C)} :
    between p a U U = { prevAccum := p, accum := a, issued := ∅, revoked := ∅ } := by
  rw [between, sdiff_self]
  rfl

theorem eq_between (h : d.changes.Leads U V) : d = between d.prevAccum d.accum U V := by
  have heq := SetDelta.leads_iff.mp h
  obtain ⟨prevAccum, accum, issued, revoked⟩ := d
  simp only [changes, SetDelta.between, SetDelta.mk.injEq] at heq
  rw [between, heq.1, heq.2]

theorem merge_eq (h : e.prevAccum = some d.accum) :
    d.merge e = (.ok (),
      { d with
        accum := e.accum
        issued := (d.changes.merge e.changes).added
        revoked := (d.changes.merge e.changes).removed }) := by
  rw [merge, if_neg (not_not.mpr h)]
  rfl

theorem merge_error (h : e.prevAccum ≠ some d.accum) :
    d.merge e = (.error <| .err .invalidStructure "Deltas can not be merged.", d) := by
  rw [merge, if_pos h]

theorem merge_between {p : Option (Accumulator C)} {a b : Accumulator C} :
    (between p a U V).merge (between (some a) b V W) = (.ok (), between p b U W) := by
  rw [merge_eq rfl, changes_between, changes_between, SetDelta.merge_between]
  rfl

-- The loop that merges every delta of a list into the first one.
def mergeAll (self : RevocationRegistryDelta C) :
    List (RevocationRegistryDelta C) → UrsaCryptoResult Unit × RevocationRegistryDelta C
  | [] => (.ok (), self)
  | other :: others =>
    match self.merge other with
    | (.ok _, self)    => self.mergeAll others
    | (.error e, self) => (.error e, self)

-- `d` may be the result of earlier merges.
theorem mergeAll_between {p : Option (Accumulator C)} (h : Chain V (e :: ds) W)
    (he : e.prevAccum = some a) :
    (between p a U V).mergeAll (e :: ds) = (.ok (), between p (ds.getLastD e).accum U W) := by
  induction ds generalizing a e V
  case nil =>
    cases h with
    | single hlead =>
      rw [mergeAll, eq_between hlead, he, merge_between]
      rfl
  case cons e' ds hi =>
    cases h with
    | cons hlead hlink hchain =>
      rw [mergeAll, eq_between hlead, he, merge_between, List.getLastD_cons]
      exact hi hchain hlink

theorem mergeAll_eq (h : Chain U (d :: ds) W) :
    d.mergeAll ds = (.ok (), between d.prevAccum (ds.getLastD d).accum U W) := by
  cases h with
  | single hlead =>
    exact congrArg (Except.ok (), ·) (eq_between hlead)
  | cons hlead hlink hchain =>
    rw [eq_between hlead, List.getLastD_cons]
    exact mergeAll_between hchain hlink

theorem chain_append (hds : ds ≠ []) (hes : es ≠ []) (h : Chain U (ds ++ es) W) :
    ∃ V, Chain U ds V ∧ Chain V es W ∧
      (es.head hes).prevAccum = some (ds.getLast hds).accum := by
  induction ds generalizing U
  case nil => exact absurd rfl hds
  case cons d ds hi =>
    cases ds with
    | nil =>
      obtain ⟨e, es, rfl⟩ := List.exists_cons_of_ne_nil hes
      cases h with
      | cons hlead hlink hchain => exact ⟨_, .single hlead, hchain, hlink⟩
    | cons d' ds =>
      cases h with
      | cons hlead hlink hchain =>
        obtain ⟨V, hds', hes', hlast⟩ := hi (List.cons_ne_nil _ _) hchain
        exact ⟨V, .cons hlead hlink hds', hes', hlast⟩

theorem chain_split (hds : ds ≠ []) (h : Chain U (ds ++ es) W) :
    ∃ V, Chain U ds V ∧ (es = [] ∧ V = W ∨ Chain V es W) := by
  by_cases hes : es = []
  case pos =>
    rw [hes, List.append_nil] at h
    exact ⟨W, h, .inl ⟨hes, rfl⟩⟩
  case neg =>
    obtain ⟨V, hl, hr, -⟩ := chain_append hds hes h
    exact ⟨V, hl, .inr hr⟩

theorem leads_subset {S : HashSet UInt32} (h : d.changes.Leads U V) (hU : U ⊆ S)
    (hd : d.issued ⊆ S) : V ⊆ S := by
  rw [h.eq]
  exact Finset.union_subset (Finset.sdiff_subset.trans hU) hd

theorem chain_subset {S : HashSet UInt32} (h : Chain U ds W) (hU : U ⊆ S)
    (hds : ∀ d ∈ ds, d.issued ⊆ S) : W ⊆ S := by
  induction h with
  | single hlead => exact leads_subset hlead hU <| hds _ (.head _)
  | cons hlead _ _ hi =>
    exact hi (leads_subset hlead hU <| hds _ (.head _)) fun d hd => hds d <| .tail _ hd

-- An order in which neighbouring deltas are merged.
inductive Grouping (C : Curve)
  | delta (d : RevocationRegistryDelta C)
  | merge (left right : Grouping C)

namespace Grouping

def leaves : Grouping C → List (RevocationRegistryDelta C)
  | delta d          => [d]
  | merge left right => left.leaves ++ right.leaves

def merged : Grouping C → UrsaCryptoResult (RevocationRegistryDelta C)
  | delta d          => .ok d
  | merge left right => do
    let d ← left.merged
    let e ← right.merged
    match d.merge e with
    | (.ok _, d)    => pure d
    | (.error e, _) => .error e

theorem leaves_ne_nil (t : Grouping C) : t.leaves ≠ [] := by
  induction t
  case delta => exact List.cons_ne_nil _ _
  case merge left right hleft _ => exact List.append_ne_nil_of_left_ne_nil hleft _

theorem merged_eq {t : Grouping C} (h : Chain U t.leaves W) :
    t.merged = .ok (between (t.leaves.head t.leaves_ne_nil).prevAccum
      (t.leaves.getLast t.leaves_ne_nil).accum U W) := by
  induction t generalizing U W
  case delta d =>
    cases h with
    | single hlead => exact congrArg _ (eq_between hlead)
  case merge left right hleft hright =>
    obtain ⟨V, hl, hr, hlink⟩ := chain_append left.leaves_ne_nil right.leaves_ne_nil h
    simp only [merged, hleft hl, hright hr, hlink, UrsaCryptoResult.ok_bind, merge_between, leaves,
      List.head_append_of_ne_nil left.leaves_ne_nil,
      List.getLast_append_of_ne_nil _ right.leaves_ne_nil]
    rfl

end Grouping

-- The accumulator gains the tails of the issued indices and loses those of the revoked ones.
def Accounts (tail : UInt32 → Tail C) (d : RevocationRegistryDelta C) : Prop :=
  ∃ prevAccum, d.prevAccum = some prevAccum ∧ d.accum - prevAccum = d.changes.total tail

theorem accounts_chain {tail : UInt32 → Tail C} (h : Chain U (d :: ds) W)
    (hacc : ∀ e ∈ d :: ds, Accounts tail e) :
    Accounts tail (between d.prevAccum (ds.getLastD d).accum U W) := by
  simp only [Accounts, changes_between, SetDelta.total_between]
  induction ds generalizing d U
  case nil =>
    obtain ⟨a, ha, htotal⟩ := hacc d (.head _)
    cases h with
    | single hlead =>
      rw [SetDelta.leads_iff.mp hlead, SetDelta.total_between] at htotal
      exact ⟨a, ha, htotal⟩
  case cons e ds hi =>
    obtain ⟨a, ha, htotal⟩ := hacc d (.head _)
    cases h with
    | cons hlead hlink hchain =>
      obtain ⟨b, hb, hsum⟩ := hi hchain fun e he => hacc e <| .tail _ he
      rw [SetDelta.leads_iff.mp hlead, SetDelta.total_between] at htotal
      obtain rfl : d.accum = b := Option.some.inj <| hlink.symm.trans hb
      refine ⟨a, ha, ?_⟩
      calc (List.getLastD (e :: ds) d).accum - a
        _ = ((ds.getLastD e).accum - d.accum) + (d.accum - a) := by
          rw [List.getLastD_cons, sub_add_sub_cancel]
        _ = (∑ x ∈ W, tail x - ∑ x ∈ _, tail x) + (∑ x ∈ _, tail x - ∑ x ∈ U, tail x) :=
          congrArg₂ _ hsum htotal
        _ = ∑ x ∈ W, tail x - ∑ x ∈ U, tail x := sub_add_sub_cancel ..

theorem merge_faithful (h : Chain U (d :: ds) W) :
    let merged : RevocationRegistryDelta C :=
      { prevAccum := d.prevAccum
        accum := (ds.getLastD d).accum
        issued := W \ U
        revoked := U \ W }
    d.mergeAll ds = (.ok (), merged) ∧ Disjoint merged.issued merged.revoked ∧
      (∀ t : Grouping C, t.leaves = d :: ds → t.merged = .ok merged) ∧
      (∀ tail, (∀ e ∈ d :: ds, Accounts tail e) → Accounts tail merged) ∧
      ∀ self other : RevocationRegistryDelta C, other.prevAccum ≠ some self.accum →
        self.merge other = (.error <| .err .invalidStructure "Deltas can not be merged.", self) := by
  intro merged
  refine ⟨mergeAll_eq h, SetDelta.disjoint_between, fun t ht => ?_,
    fun tail hacc => accounts_chain h hacc, fun _ _ hne => merge_error hne⟩
  rw [Grouping.merged_eq (ht ▸ h)]
  simp only [ht, List.head_cons, List.getLast_eq_getLastD]
  rfl

section Residues

open ProofVerifier (curveMod11 mod11)

-- The index 1 is issued, revoked and recovered, and 2 is issued in between.
def deltasMod11 : List (RevocationRegistryDelta curveMod11) :=
  [{ prevAccum := some (mod11 3), accum := mod11 1, issued := ∅, revoked := {1} },
    { prevAccum := some (mod11 1), accum := mod11 8, issued := {2}, revoked := ∅ },
    { prevAccum := some (mod11 8), accum := mod11 10, issued := {1}, revoked := ∅ }]

theorem merge_faithful_mod11 :
    mergeAll { prevAccum := none, accum := mod11 3, issued := {1}, revoked := ∅ } deltasMod11 =
      (.ok (), { prevAccum := none, accum := mod11 10, issued := {1, 2}, revoked := ∅ }) := by
  have hchain : Chain ∅ ({ prevAccum := none, accum := mod11 3, issued := {1}, revoked := ∅ } ::
      deltasMod11) ({1, 2} : HashSet UInt32) :=
    .cons (V := {1}) ⟨by decide, by decide, by decide⟩ rfl <|
      .cons (V := ∅) ⟨by decide, by decide, by decide⟩ rfl <|
        .cons (V := {2}) ⟨by decide, by decide, by decide⟩ rfl <|
          .single ⟨by decide, by decide, by decide⟩
  exact (merge_faithful hchain).1

end Residues

end RevocationRegistryDelta
end Ursa
