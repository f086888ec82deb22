import Ursa.Cl.Issuer
import Ursa.Math.Codec

namespace Ursa

open BigNumber

section Text

-- The walk over a `ByteArray`, from the byte `i` on.
theorem toList_loop (bs : ByteArray) (i : ℕ) (r : List UInt8) :
    ByteArray.toList.loop bs i r = r.reverse ++ bs.data.toList.drop i := by
  fun_induction ByteArray.toList.loop bs i r
  case case1 i r hi ih =>
    have hget : bs.get! i = bs.data.toList[i] := getElem!_pos bs.data i hi
    rw [ih, List.drop_eq_getElem_cons hi, List.reverse_cons, List.append_assoc, hget]
    rfl
  case case2 i r hi =>
    rw [List.drop_eq_nil_of_le <| not_lt.mp hi, List.append_nil]

theorem toList_toUTF8_inj {s s' : String} (h : s.toUTF8.toList = s'.toUTF8.toList) : s = s' := by
  rw [ByteArray.toList, ByteArray.toList, toList_loop, toList_loop] at h
  exact String.toByteArray_inj.mp <| ByteArray.ext <| Array.ext' <| by simpa using h

theorem toString_int_inj {n n' : ℤ} (h : toString n = toString n') : n = n' :=
  Int.repr_inj.mp h

end Text

namespace Issuer

variable {env : Env} {proverId proverId' : String} {revIdx revIdx' : Option UInt32}

-- The number that stands for the index.
def revIdxNumber (revIdx : Option UInt32) : ℤ :=
  (revIdx.map fun i => i.toInt32.toInt).getD (-1)

-- The bytes of an attribute, without the zeros at the end of its hash.
def attributeBytes (env : Env) (attr : String) : List UInt8 :=
  (encodeAttribute env attr .little).toBytes

def proverBytes (env : Env) (proverId : String) : List UInt8 :=
  attributeBytes env proverId

def revIdxBytes (env : Env) (revIdx : Option UInt32) : List UInt8 :=
  attributeBytes env <| toString <| revIdxNumber revIdx

-- What is hashed on the way to a credential context.
def contextTexts (env : Env) (proverId : String) (revIdx : Option UInt32) : List (List UInt8) :=
  [proverId.toUTF8.toList, (toString <| revIdxNumber revIdx).toUTF8.toList,
    proverBytes env proverId ++ revIdxBytes env revIdx]

-- None of these texts collide.
def CollisionFree (env : Env) (texts : List (List UInt8)) : Prop :=
  ∀ a ∈ texts, ∀ b ∈ texts, hash env a = hash env b → a = b

theorem genCredentialContext_eq : genCredentialContext env proverId revIdx =
    fromBytes (hash env <| proverBytes env proverId ++ revIdxBytes env revIdx) := by
  rw [genCredentialContext, getHashAsInt, hashArray, List.flatten_singleton]
  rfl

-- The bytes of a hash are found again from the number that they are read as.
theorem hash_of_attributeBytes {attr attr' : String}
    (h : attributeBytes env attr = attributeBytes env attr') :
    hash env attr.toUTF8.toList = hash env attr'.toUTF8.toList := by
  have hmagnitude := congrArg magnitude h
  rw [attributeBytes, attributeBytes, magnitude_toBytes, magnitude_toBytes] at hmagnitude
  have hlen : (hash env attr.toUTF8.toList).reverse.length =
      (hash env attr'.toUTF8.toList).reverse.length := by
    rw [List.length_reverse, List.length_reverse]
    exact (env.sha256_length _).trans (env.sha256_length _).symm
  exact List.reverse_injective <| magnitude_injective hlen hmagnitude

theorem attributeBytes_inj {texts : List (List UInt8)} (hfree : CollisionFree env texts)
    {attr attr' : String} (hmem : attr.toUTF8.toList ∈ texts) (hmem' : attr'.toUTF8.toList ∈ texts)
    (h : attributeBytes env attr = attributeBytes env attr') : attr = attr' :=
  toList_toUTF8_inj <| hfree _ hmem _ hmem' <| hash_of_attributeBytes h

-- The greatest index wraps around to the number of a credential without one.
def Aliased (revIdx revIdx' : Option UInt32) : Prop :=
  (revIdx = none ∧ revIdx' = some 0xFFFFFFFF) ∨ (revIdx = some 0xFFFFFFFF ∧ revIdx' = none)

theorem Aliased.ne (h : Aliased revIdx revIdx') : revIdx ≠ revIdx' := by
  obtain ⟨rfl, rfl⟩ | ⟨rfl, rfl⟩ := h
  case inl => exact (Option.some_ne_none _).symm
  case inr => exact Option.some_ne_none _

theorem toInt_toInt32_inj {i i' : UInt32} : i.toInt32.toInt = i'.toInt32.toInt ↔ i = i' := by
  refine ⟨fun h => ?_, congrArg fun i : UInt32 => i.toInt32.toInt⟩
  rw [← i.toUInt32_toInt32, Int32.toInt_inj.mp h, i'.toUInt32_toInt32]

theorem revIdxNumber_eq_iff :
    revIdxNumber revIdx = revIdxNumber revIdx' ↔ revIdx = revIdx' ∨ Aliased revIdx revIdx' := by
  have hlast : (0xFFFFFFFF : UInt32).toInt32.toInt = -1 := by decide
  have hwrap (i : UInt32) : i.toInt32.toInt = -1 ↔ i = 0xFFFFFFFF := by
    rw [← hlast, toInt_toInt32_inj]
  cases revIdx <;> cases revIdx'
  case none.none => exact iff_of_true rfl <| .inl rfl
  case none.some i =>
    rw [eq_comm]
    simp [revIdxNumber, Aliased, hwrap]
  case some.none i => simp [revIdxNumber, Aliased, hwrap]
  case some.some i i' => simp [revIdxNumber, Aliased, toInt_toInt32_inj]

section Collisions

variable (hfree : CollisionFree env
  (contextTexts env proverId revIdx ++ contextTexts env proverId' revIdx'))
include hfree

theorem genCredentialContext_eq_iff :
    genCredentialContext env proverId revIdx = genCredentialContext env proverId' revIdx' ↔
      proverBytes env proverId ++ revIdxBytes env revIdx =
        proverBytes env proverId' ++ revIdxBytes env revIdx' := by
  rw [genCredentialContext_eq, genCredentialContext_eq]
  constructor
  case mp =>
    intro h
    exact hfree _ (by simp [contextTexts]) _ (by simp [contextTexts]) <| fromBytes_hash_inj h
  case mpr => exact congrArg fun bytes => fromBytes (hash env bytes)

theorem proverBytes_eq_iff :
    proverBytes env proverId = proverBytes env proverId' ↔ proverId = proverId' := by
  refine ⟨fun h => ?_, congrArg _⟩
  exact attributeBytes_inj hfree (by simp [contextTexts]) (by simp [contextTexts]) h

theorem revIdxBytes_eq_iff :
    revIdxBytes env revIdx = revIdxBytes env revIdx' ↔ revIdx = revIdx' ∨ Aliased revIdx revIdx' := by
  rw [← revIdxNumber_eq_iff]
  refine ⟨fun h => ?_, congrArg fun n => attributeBytes env (toString n)⟩
  exact toString_int_inj <|
    attributeBytes_inj hfree (by simp [contextTexts]) (by simp [contextTexts]) h

-- The two parts are hashed without their lengths, so that they can be cut elsewhere.
theorem genCredentialContext_eq_iff_shifts :
    genCredentialContext env proverId revIdx = genCredentialContext env proverId' revIdx' ↔
      (proverId = proverId' ∧ (revIdx = revIdx' ∨ Aliased revIdx revIdx')) ∨
      (proverBytes env proverId).Shifts (revIdxBytes env revIdx)
        (proverBytes env proverId') (revIdxBytes env revIdx') ∨
      (proverBytes env proverId').Shifts (revIdxBytes env revIdx')
        (proverBytes env proverId) (revIdxBytes env revIdx) := by
  rw [genCredentialContext_eq_iff hfree, List.append_eq_append_iff_shifts,
    proverBytes_eq_iff hfree, revIdxBytes_eq_iff hfree]

theorem genCredentialContext_identifies_iff :
    (genCredentialContext env proverId revIdx = genCredentialContext env proverId' revIdx' →
      proverId = proverId' ∧ revIdx = revIdx') ↔
      ¬(proverId = proverId' ∧ Aliased revIdx revIdx') ∧
      ¬(proverBytes env proverId).Shifts (revIdxBytes env revIdx)
        (proverBytes env proverId') (revIdxBytes env revIdx') ∧
      ¬(proverBytes env proverId').Shifts (revIdxBytes env revIdx')
        (proverBytes env proverId) (revIdxBytes env revIdx) := by
  rw [genCredentialContext_eq_iff_shifts hfree]
  have hshift {a b b' : List UInt8} : ¬a.Shifts b a b' := List.not_shifts_of_length_eq rfl
  constructor
  case mp =>
    intro h
    refine ⟨fun ⟨hid, halias⟩ => ?_, fun hs => ?_, fun hs => ?_⟩
    · exact halias.ne (h <| .inl ⟨hid, .inr halias⟩).right
    · exact hshift <| (h <| .inr <| .inl hs).left ▸ hs
    · exact hshift <| (h <| .inr <| .inr hs).left ▸ hs
  case mpr =>
    rintro ⟨halias, hs, hs'⟩ (⟨hid, hidx⟩ | h | h)
    · exact ⟨hid, hidx.resolve_right fun h => halias ⟨hid, h⟩⟩
    · exact absurd h hs
    · exact absurd h hs'

-- Nothing can be cut elsewhere if the hashes of the two identifiers end in equally many zeros.
theorem identifies_of_length_eq
    (hlen : (proverBytes env proverId).length = (proverBytes env proverId').length)
    (h : genCredentialContext env proverId revIdx = genCredentialContext env proverId' revIdx') :
    proverId = proverId' ∧ (revIdx = revIdx' ∨ Aliased revIdx revIdx') := by
  obtain h | h | h := (genCredentialContext_eq_iff_shifts hfree).mp h
  · exact h
  · exact absurd h <| List.not_shifts_of_length_eq hlen
  · exact absurd h <| List.not_shifts_of_length_eq hlen.symm

end Collisions

section Sample

-- The first 32 bytes, or as many ones as are missing.
def padHash (bytes : List UInt8) : List UInt8 :=
  (bytes ++ List.replicate 32 1).take 32

theorem length_padHash (bytes : List UInt8) : (padHash bytes).length = 32 := by
  simp [padHash]

def padEnv : Env :=
  .sorted padHash length_padHash

instance {texts : List (List UInt8)} : Decidable (CollisionFree env texts) :=
  inferInstanceAs <| Decidable (∀ a ∈ texts, ∀ b ∈ texts, hash env a = hash env b → a = b)

theorem genCredentialContext_identifies_sample :
    genCredentialContext padEnv "prover" (some 1) ≠ genCredentialContext padEnv "other" none := by
  have hfree : CollisionFree padEnv
      (contextTexts padEnv "prover" (some 1) ++ contextTexts padEnv "other" none) := by
    decide +kernel
  have hlen : (proverBytes padEnv "prover").length = (proverBytes padEnv "other").length := by
    decide +kernel
  have hne : "prover" ≠ "other" := by decide
  intro h
  refine hne ((genCredentialContext_identifies_iff hfree).mpr ⟨?_, ?_, ?_⟩ h).left
  · exact fun hid => hne hid.left
  · exact List.not_shifts_of_length_eq hlen
  · exact List.not_shifts_of_length_eq hlen.symm

-- The context of the greatest index is that of a credential without one.
theorem genCredentialContext_aliased :
    CollisionFree padEnv
        (contextTexts padEnv "prover" none ++ contextTexts padEnv "prover" (some 0xFFFFFFFF)) ∧
      genCredentialContext padEnv "prover" none =
        genCredentialContext padEnv "prover" (some 0xFFFFFFFF) := by
  decide +kernel

end Sample

end Issuer
end Ursa
