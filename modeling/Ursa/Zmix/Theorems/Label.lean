import Ursa.Cl.Theorems.Verification.Nonce
import Ursa.Zmix.Theorems.Encryption

namespace Ursa.VerifiableEncryption

open BigNumber UrsaCryptoResult
open ProofVerifier (Collision)

variable {env : Env} {u u' : BigNumber} {e e' : List BigNumber} {label label' : List UInt8}

-- What goes into the hash before the label. Nothing tells where it ends.
def hashedBytes (u : BigNumber) (e : List BigNumber) : List UInt8 :=
  u.toBytes ++ e.flatMap toBytes

theorem hash_eq : VerifiableEncryption.hash env u e label =
    fromBytes (BigNumber.hash env (hashedBytes u e ++ label)) := by
  simp [VerifiableEncryption.hash, getHashAsInt, hashArray, BigNumber.hash, hashedBytes,
    List.flatMap_def]

-- The hash tells the components and the label, unless it has a collision.
def Bound (env : Env) (u : BigNumber) (e : List BigNumber) (label : List UInt8) (u' : BigNumber)
    (e' : List BigNumber) (label' : List UInt8) : Prop :=
  VerifiableEncryption.hash env u e label = VerifiableEncryption.hash env u' e' label' →
    (u = u' ∧ e = e' ∧ label = label') ∨
      Collision env (hashedBytes u e ++ label) (hashedBytes u' e' ++ label')

-- One label is the other one behind the bytes by which the numbers of the other are longer.
def Moved (u : BigNumber) (e : List BigNumber) (label : List UInt8) (u' : BigNumber)
    (e' : List BigNumber) (label' : List UInt8) : Prop :=
  (∃ bytes, hashedBytes u' e' = hashedBytes u e ++ bytes ∧ label = bytes ++ label') ∨
    ∃ bytes, hashedBytes u e = hashedBytes u' e' ++ bytes ∧ label' = bytes ++ label

theorem bound_iff_moved : Bound env u e label u' e' label' ↔
    (u = u' ∧ e = e' ∧ label = label') ∨ ¬Moved u e label u' e' label' := by
  have hmoved : hashedBytes u e ++ label = hashedBytes u' e' ++ label' ↔
      Moved u e label u' e' label' := List.append_eq_append_iff
  unfold Bound
  rw [hash_eq, hash_eq, ← hmoved]
  constructor
  case mp =>
    intro h
    by_cases hbytes : hashedBytes u e ++ label = hashedBytes u' e' ++ label'
    case pos =>
      obtain hsame | hcollision := h <| by rw [hbytes]
      · exact .inl hsame
      · exact absurd hbytes hcollision.ne
    case neg => exact .inr hbytes
  case mpr =>
    rintro (hsame | hbytes) hhash
    · exact .inl hsame
    · exact .inr ⟨hbytes, fromBytes_hash_inj hhash⟩

section Cut

variable {keypair : CSKeypair} {n r : ℤ} {T : Trapdoor keypair.pubKey.paillierGroup n}
variable {ciphertext : CSCiphertext} {messages : List BigNumber} {m : BigNumber}

-- The last component of `e` is passed off as the start of the label.
def CSCiphertext.cut (ciphertext : CSCiphertext) : CSCiphertext :=
  { ciphertext with e := ciphertext.e.dropLast }

def movedLabel (ciphertext : CSCiphertext) (label : List UInt8) : List UInt8 :=
  (ciphertext.e.getLastD 0).toBytes ++ label

theorem components_append (T : Trapdoor keypair.pubKey.paillierGroup n) (messages : List BigNumber)
    (m : BigNumber) (r : ℤ) :
    ∃ last, components T (messages ++ [m]) r = components T messages r ++ [last] := by
  refine ⟨residue _ (entry T (messages ++ [m]) r messages.length), ?_⟩
  rw [components, List.length_append, List.length_singleton, List.range_succ, List.map_append,
    List.map_singleton]
  congr 1
  refine List.map_congr_left fun i hi => ?_
  rw [entry, entry, List.getD_append _ _ _ _ (List.mem_range.mp hi)]

theorem hash_cut (he : ciphertext.e = e ++ [last]) (u : BigNumber) :
    VerifiableEncryption.hash env u e (movedLabel ciphertext label) =
      VerifiableEncryption.hash env u ciphertext.e label := by
  rw [hash_eq, hash_eq, movedLabel, he]
  simp [hashedBytes]

theorem encrypts_cut (h : Encrypts env T (messages ++ [m]) label r ciphertext) :
    Encrypts env T messages (movedLabel ciphertext label) r (CSCiphertext.cut ciphertext) := by
  obtain ⟨last, hlast⟩ := components_append T messages m r
  have he : ciphertext.e = components T messages r ++ [last] := h.e.trans hlast
  have hcut : (CSCiphertext.cut ciphertext).e = components T messages r := by
    rw [CSCiphertext.cut, he, List.dropLast_concat]
  refine ⟨h.u, hcut, ?_⟩
  rw [hcut]
  exact (hash_cut he ciphertext.u).symm ▸ h.v

end Cut

theorem bound_iff (env : Env) :
    (∀ (u u' : BigNumber) (e e' : List BigNumber) (label label' : List UInt8),
      Bound env u e label u' e' label' ↔
        (u = u' ∧ e = e' ∧ label = label') ∨ ¬Moved u e label u' e' label') ∧
    ∀ (n : ℤ) (numMessages : ℕ) (draws : CSKeyDraws) (keypair : CSKeypair)
      (messages : List BigNumber) (m r : BigNumber) (label : List UInt8)
      (ciphertext : CSCiphertext), 1 < n →
      CSKeypair.ofModulus n numMessages draws = .ok keypair →
      Int.gcd keypair.pubKey.paillierGroup.g n = 1 → messages.length < numMessages →
      encryptUsingRandomValue env r (messages ++ [m]) label keypair.pubKey = .ok ciphertext →
        decrypt env (movedLabel ciphertext label) (CSCiphertext.cut ciphertext) keypair.pubKey
          keypair.priKey = .ok (messages.map (· % n)) := by
  refine ⟨fun _ _ _ _ _ _ => bound_iff_moved, ?_⟩
  intro n numMessages draws keypair messages m r label ciphertext hn hkeypair hg hlen hencrypt
  have hgen := CSKeypair.ofModulus_eq_ok hkeypair
  obtain ⟨T⟩ := exists_trapdoor hgen.modulus hgen.h hn hg
  have hlen' : (messages ++ [m]).length ≤ numMessages := by
    rw [List.length_append, List.length_singleton]
    omega
  obtain ⟨ciphertext', hencrypt', hencrypts⟩ :=
    encryptUsingRandomValue_ok T hgen hn env r label hlen'
  obtain rfl := Except.ok.inj <| hencrypt.symm.trans hencrypt'
  exact decrypt_eq hgen hn (encrypts_cut hencrypts) hlen.le

-- The component 2 is the one byte that the other label begins with.
theorem not_bound : ¬∀ (env : Env) (u u' : BigNumber) (e e' : List BigNumber)
    (label label' : List UInt8), (∀ x ∈ e ++ e', 0 ≤ x) → Bound env u e label u' e' label' := by
  intro h
  let env : Env := .sorted (fun _ => List.replicate 32 0) fun _ => List.length_replicate
  have hmoved : Moved 1 [2] [] 1 [] [2] := .inr ⟨[2], by decide +kernel, rfl⟩
  obtain ⟨-, he, -⟩ | hnot := bound_iff_moved.mp <| h env 1 1 [2] [] [] [2] (by decide)
  · cases he
  · exact hnot hmoved

theorem bound_fifteen :
    let env : Env := .sorted (fun _ => List.replicate 32 1) fun _ => List.length_replicate
    ∃ keypair ciphertext, CSKeypair.ofModulus 15 2 keyDraws15 = .ok keypair ∧
      encryptUsingRandomValue env 2 [4, 9] [1] keypair.pubKey = .ok ciphertext ∧
      decrypt env (movedLabel ciphertext [1]) (CSCiphertext.cut ciphertext) keypair.pubKey
        keypair.priKey = .ok [4] := by
  intro env
  obtain ⟨keypair, hkeypair, hg⟩ := keypair_fifteen
  have hgen := CSKeypair.ofModulus_eq_ok hkeypair
  obtain ⟨T⟩ := exists_trapdoor hgen.modulus hgen.h (by decide) hg
  obtain ⟨ciphertext, hencrypt, -⟩ : ∃ ciphertext, encryptUsingRandomValue env 2 [4, 9] [1]
      keypair.pubKey = .ok ciphertext ∧ Encrypts env T [4, 9] [1] 2 ciphertext :=
    encryptUsingRandomValue_ok T hgen (by decide) env 2 [1] (by decide)
  exact ⟨keypair, ciphertext, hkeypair, hencrypt, (bound_iff env).2 15 2 keyDraws15 keypair [4] 9 2
    [1] ciphertext (by decide) hkeypair hg (by decide) hencrypt⟩

end Ursa.VerifiableEncryption
