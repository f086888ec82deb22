import Ursa.Zmix.Theorems.PoKVC

namespace Ursa

open UrsaCryptoResult ZmixResult Pedersen

variable {Kind : Type} {C : Curve} {G : Type}

theorem checkIndices_eq_ok_iff {error : String → Kind} {indices : List ℕ} :
    checkIndices error indices count = .ok () ↔ ∀ i ∈ indices, i < count := by
  rw [checkIndices, forM_eq_ok_iff]
  refine forall₂_congr fun i _ => ?_
  rw [ite_fail_eq_ok_iff, not_le]
  exact and_iff_left rfl

theorem hiddenBlindings_eq_ok (error : ℕ → ℕ → Kind)
    {blindings : Option (List (FieldElement C))} (hle : revealed ≤ messages)
    (h : ∀ b ∈ blindings, b.length = messages - revealed) :
    ∃ blindings', hiddenBlindings error messages revealed blindings = .ok blindings' ∧
      blindings'.length = messages - revealed := by
  cases blindings with
  | none =>
    refine ⟨List.replicate (messages - revealed) none, ?_, List.length_replicate⟩
    rw [hiddenBlindings, usizeSub, if_pos hle]
    rfl
  | some b =>
    refine ⟨b.map some, ?_, by rw [List.length_map, h b rfl]⟩
    rw [hiddenBlindings, usizeSub, if_pos hle, ok_bind]
    exact if_neg (not_not.mpr (h b rfl).symm)

section Indices

variable {revealed : IndexSet}

theorem mem_hiddenIndices : i ∈ hiddenIndices count revealed ↔ i < count ∧ i ∉ revealed := by
  simp [hiddenIndices]

theorem mem_revealedIndices : i ∈ revealedIndices count revealed ↔ i < count ∧ i ∈ revealed := by
  simp [revealedIndices]

theorem nodup_hiddenIndices : (hiddenIndices count revealed).Nodup :=
  List.nodup_range.filter _

theorem nodup_revealedIndices : (revealedIndices count revealed).Nodup :=
  List.nodup_range.filter _

-- Any walk through the revealed indices meets those that the loop over all indices meets.
theorem iter_perm_revealedIndices (order : HashOrder ℕ) (h : ∀ i ∈ revealed, i < count) :
    (order.iter revealed).Perm (revealedIndices count revealed) := by
  refine (List.perm_ext_iff_of_nodup (order.nodup_iter _) nodup_revealedIndices).mpr fun i => ?_
  rw [order.mem_iter, mem_revealedIndices]
  exact ⟨fun hi => ⟨h i hi, hi⟩, fun hi => hi.right⟩

theorem length_revealedIndices (h : ∀ i ∈ revealed, i < count) :
    (revealedIndices count revealed).length = revealed.card := by
  have hset : (revealedIndices count revealed).toFinset = revealed := by
    ext i
    rw [List.mem_toFinset, mem_revealedIndices]
    exact ⟨fun hi => hi.right, fun hi => ⟨h i hi, hi⟩⟩
  rw [← List.toFinset_card_of_nodup nodup_revealedIndices, hset]

theorem card_le (h : ∀ i ∈ revealed, i < count) : revealed.card ≤ count := by
  rw [← length_revealedIndices h]
  exact (List.length_filter_le _ _).trans_eq List.length_range

theorem length_hiddenIndices (h : ∀ i ∈ revealed, i < count) :
    (hiddenIndices count revealed).length = count - revealed.card := by
  have hsum : (revealedIndices count revealed).length + (hiddenIndices count revealed).length =
      count := by
    have hlen := List.length_eq_length_filter_add (l := List.range count) (· ∈ revealed)
    simpa [revealedIndices, hiddenIndices] using hlen.symm
  rw [length_revealedIndices h] at hsum
  omega

end Indices

theorem mapM_unwrap_lookup {revealed : IndexMap (FieldElement C)} {is : List ℕ}
    (h : ∀ i ∈ is, i ∈ revealed.keys) :
    is.mapM (fun i => unwrap (revealed.lookup i)) =
      (.ok (is.map fun i => (revealed.lookup i).getD 0) : ZmixResult Kind _) := by
  refine mapM_eq_map fun i hi => ?_
  obtain ⟨m, hm⟩ := Finmap.mem_iff.mp <| Finmap.mem_keys.mp (h i hi)
  rw [hm, unwrap_some, Option.getD_some]

theorem mapM_nth_hiddenIndices {l : List α} (d : α) (h : count = l.length) :
    (hiddenIndices count revealed).mapM (nth l) =
      (.ok ((hiddenIndices count revealed).map (l.getD · d)) : ZmixResult Kind _) :=
  mapM_nth d fun _ hi => h ▸ (mem_hiddenIndices.mp hi).left

theorem mapM_nth_revealedIndices {l : List α} (d : α) (h : count = l.length) :
    (revealedIndices count revealed).mapM (nth l) =
      (.ok ((revealedIndices count revealed).map (l.getD · d)) : ZmixResult Kind _) :=
  mapM_nth d fun _ hi => h ▸ (mem_revealedIndices.mp hi).left

theorem map_getD_range {l : List α} (d : α) : (List.range l.length).map (l.getD · d) = l := by
  refine List.ext_getElem (by simp) fun i _ h => ?_
  rw [List.getElem_map, List.getElem_range, List.getD_eq_getElem l d h]

section Commit

variable [AddCommGroup G] [Module (FieldElement C) G]

-- A commitment to all messages is one to the revealed messages and one to the others.
theorem commit_split {gens : List G} {messages : List (FieldElement C)}
    (h : gens.length = count) (h' : messages.length = count) (revealed : IndexSet) :
    commit gens messages =
      commit ((revealedIndices count revealed).map (gens.getD · 0))
          ((revealedIndices count revealed).map (messages.getD · 0)) +
        commit ((hiddenIndices count revealed).map (gens.getD · 0))
          ((hiddenIndices count revealed).map (messages.getD · 0)) := by
  calc commit gens messages
    _ = commit ((List.range count).map (gens.getD · 0))
          ((List.range count).map (messages.getD · 0)) := by
      rw [← h, map_getD_range, h, ← h', map_getD_range]
    _ = ((List.range count).map fun i => messages.getD i 0 • gens.getD i 0).sum :=
      commit_map ..
    _ = _ := by
      rw [← sum_map_filter _ (· ∈ revealed), commit_map, commit_map]
      rfl

end Commit

-- The revealed messages in their positions, and the hidden ones in those that are left.
def assemble (count : ℕ) (revealed : IndexMap (FieldElement C)) (hidden : List (FieldElement C)) :
    List (FieldElement C) :=
  (List.range count).map message
where
  message (i : ℕ) : FieldElement C :=
    (revealed.lookup i).getD <| hidden.getD ((hiddenIndices count revealed.keys).idxOf i) 0

section Assemble

variable {revealed : IndexMap (FieldElement C)} {hidden : List (FieldElement C)}

theorem length_assemble : (assemble count revealed hidden).length = count := by
  rw [assemble, List.length_map, List.length_range]

theorem getD_assemble (h : i < count) :
    (assemble count revealed hidden).getD i 0 =
      (revealed.lookup i).getD (hidden.getD ((hiddenIndices count revealed.keys).idxOf i) 0) := by
  have hlt : i < (assemble count revealed hidden).length := by rwa [length_assemble]
  rw [List.getD_eq_getElem _ _ hlt]
  simp only [assemble, List.getElem_map, List.getElem_range]
  rfl

theorem map_assemble_revealedIndices :
    (revealedIndices count revealed.keys).map ((assemble count revealed hidden).getD · 0) =
      (revealedIndices count revealed.keys).map fun i => (revealed.lookup i).getD 0 := by
  refine List.map_congr_left fun i hi => ?_
  obtain ⟨hlt, hmem⟩ := mem_revealedIndices.mp hi
  obtain ⟨m, hm⟩ := Finmap.mem_iff.mp <| Finmap.mem_keys.mp hmem
  rw [getD_assemble hlt, hm, Option.getD_some, Option.getD_some]

theorem map_assemble_hiddenIndices
    (h : hidden.length = (hiddenIndices count revealed.keys).length) :
    (hiddenIndices count revealed.keys).map ((assemble count revealed hidden).getD · 0) =
      hidden := by
  refine List.ext_getElem (by rw [List.length_map, h]) fun i hi hi' => ?_
  rw [List.length_map] at hi
  obtain ⟨hlt, hmem⟩ := mem_hiddenIndices.mp (List.getElem_mem hi)
  have hnone : revealed.lookup (hiddenIndices count revealed.keys)[i] = none :=
    Finmap.lookup_eq_none.mpr <| mt Finmap.mem_keys.mpr hmem
  rw [List.getElem_map, getD_assemble hlt, hnone, Option.getD_none,
    nodup_hiddenIndices.idxOf_getElem i hi, List.getD_eq_getElem _ _ hi']

theorem commit_assemble [AddCommGroup G] [Module (FieldElement C) G] {gens : List G}
    (h : gens.length = count)
    (h' : hidden.length = (hiddenIndices count revealed.keys).length) :
    commit gens (assemble count revealed hidden) =
      commit ((revealedIndices count revealed.keys).map (gens.getD · 0))
          ((revealedIndices count revealed.keys).map fun i => (revealed.lookup i).getD 0) +
        commit ((hiddenIndices count revealed.keys).map (gens.getD · 0)) hidden := by
  rw [commit_split h length_assemble revealed.keys, map_assemble_revealedIndices,
    map_assemble_hiddenIndices h']

end Assemble

-- A map of exactly the messages at the indices.
def Reveals (revealedMsgs : IndexMap (FieldElement C)) (messages : List (FieldElement C))
    (indices : IndexSet) : Prop :=
  ∀ i, revealedMsgs.lookup i = if i ∈ indices then messages[i]? else none

namespace Reveals

variable {revealedMsgs : IndexMap (FieldElement C)} {messages : List (FieldElement C)}
variable {indices : IndexSet}

theorem keys_eq (h : Reveals revealedMsgs messages indices)
    (hlt : ∀ i ∈ indices, i < messages.length) : revealedMsgs.keys = indices := by
  ext i
  rw [Finmap.mem_keys, ← Finmap.lookup_isSome, h i]
  constructor
  case mp =>
    intro hi
    by_contra hnot
    simp [hnot] at hi
  case mpr =>
    intro hi
    simp [hi, hlt i hi]

theorem lookup_eq (h : Reveals revealedMsgs messages indices)
    (hlt : ∀ i ∈ indices, i < messages.length) (hi : i ∈ indices) :
    revealedMsgs.lookup i = some (messages.getD i 0) := by
  rw [h i, if_pos hi, List.getElem?_eq_getElem (hlt i hi), List.getD_eq_getElem _ _ (hlt i hi)]

theorem map_getD (h : Reveals revealedMsgs messages indices)
    (hlt : ∀ i ∈ indices, i < messages.length) :
    (revealedIndices count indices).map (messages.getD · 0) =
      (revealedIndices count indices).map fun i => (revealedMsgs.lookup i).getD 0 := by
  refine List.map_congr_left fun i hi => ?_
  rw [h.lookup_eq hlt (mem_revealedIndices.mp hi).right, Option.getD_some]

theorem singleton (h : messages[i]? = some m) :
    Reveals (Finmap.singleton i m) messages {i} := by
  intro j
  by_cases hj : j = i
  · subst hj
    rw [if_pos (Finset.mem_singleton_self j), h]
    exact Finmap.lookup_singleton_eq
  · rw [if_neg (mt Finset.mem_singleton.mp hj)]
    exact Finmap.lookup_eq_none.mpr <| mt (Finmap.mem_singleton _ _ _).mp hj

end Reveals

def curveMod7 : Curve := .residues 7 Nat.prime_seven

def mod7 (x : ℕ) : FieldElement curveMod7 := (x : ZMod 7)

def ascending : HashOrder ℕ := .sorted id fun _ _ h => h

end Ursa
