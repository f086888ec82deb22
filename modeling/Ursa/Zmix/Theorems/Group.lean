import Ursa.Zmix.Group
import Ursa.Zmix.Theorems.Ps

namespace Ursa.Scenario

open Ps UrsaCryptoResult ZmixResult

variable {C : Curve} {env : Env C} {gpk : Gpk C} {gmsk : Gmsk C} {mu mu' : Mu C}

theorem unwrapResult_eq_ok_iff {x : PSResult α} : unwrapResult x = .ok a ↔ x = .ok a := by
  cases x <;> simp [unwrapResult]

section Keys

-- With a key of the library, signing succeeds for the number of messages that the key is for.
theorem new_eq_ok_iff {vk : Verkey C} {sk : Sigkey C} {x : FieldElement C}
    {ys : List (FieldElement C)} (h : vk.Generated sk x ys) (msg : List (FieldElement C))
    (u : FieldElement C) :
    (∃ sig, Signature.new msg sk vk u = .ok sig) ↔ msg.length = vk.y.length := by
  constructor
  case mp =>
    rintro ⟨sig, hsig⟩
    rw [Signature.new, seq_eq_ok_iff, Signature.checkVerkeyAndMessagesCompat_eq_ok_iff] at hsig
    exact hsig.left.right
  case mpr =>
    intro hlen
    have hcompat : Signature.checkVerkeyAndMessagesCompat msg vk = .ok () :=
      Signature.checkVerkeyAndMessagesCompat_eq_ok_iff.mpr ⟨h.validate, hlen⟩
    exact ⟨_, by rw [Signature.new, hcompat, ok_bind, Signature.sign_eq_ok (j := 0) (by omega)]⟩

theorem pkiJoin_eq_ok (env : Env C) (countMsgs : ℕ) (label : List UInt8) (draws : PKIDraws C) :
    pkiJoin env countMsgs label draws =
      .ok (keygen env.fromMsgHash₁ env.fromMsgHash₂ countMsgs label draws.x draws.y) := by
  have hgenerated := keygen_generated env.fromMsgHash₁ env.fromMsgHash₂ countMsgs label draws.x
    draws.y
  obtain ⟨sig, hsig⟩ := (new_eq_ok_iff hgenerated ((List.range countMsgs).map draws.msg)
    draws.u).mpr (by simp [keygen])
  simp only [pkiJoin, hsig, unwrapResult, ok_bind]
  rfl

end Keys

-- The signature of the manager over the secret of a user.
def Gsk.issued (gpk : Gpk C) (gmsk : Gmsk C) (draws : JoinDraws C) : Gsk C where
  ski := draws.ski
  sigma1 := draws.u • gpk.g
  sigma2 := draws.u • gmsk.x • gpk.g + draws.u • gmsk.y • draws.ski • gpk.g
  e := C.pair (draws.u • gpk.g) gpk.yTilde

-- The entry of a user.
structure SecretRegister.Of (entry : SecretRegister env) (gpk : Gpk C) (userId : ℕ)
    (ski : FieldElement C) : Prop where
  i_eq : entry.i = userId
  tow_eq : entry.tow = ski • gpk.g
  towTilde_eq : entry.towTilde = ski • gpk.yTilde

-- What `GJoin` does if the user's signature is there.
structure Joined.Of (joined : Joined env) (gpk : Gpk C) (gmsk : Gmsk C) (userId : ℕ)
    (draws : JoinDraws C) : Prop where
  entry : joined.secretRegister.Of gpk userId draws.ski
  gsk_eq : joined.gsk = .issued gpk gmsk draws
  pairingTest : joined.pairingTest = true
  sigmaTest : joined.sigmaTest = true

theorem testSigmaProtocol_eq_true (g : SignatureGroup C) (y r cha : FieldElement C) :
    testSigmaProtocol g y (y • g) r cha = true := by
  rw [testSigmaProtocol, decide_eq_true_eq]
  module

theorem gJoin_eq_ok_iff {upk : Verkey C} {usk : Sigkey C} {draws : JoinDraws C} :
    (∃ joined, gJoin env i gpk gmsk upk usk draws = .ok joined) ↔
      ∃ n, signUskI env env.newHasher (draws.ski • gpk.g) usk upk draws.signature = .ok n := by
  simp only [gJoin, bind_eq_ok_iff, pure_eq_ok_iff]
  constructor
  case mp =>
    rintro ⟨-, n, hn, -⟩
    exact ⟨n, hn⟩
  case mpr =>
    rintro ⟨n, hn⟩
    exact ⟨_, n, hn, rfl⟩

theorem Joined.of_gJoin {upk : Verkey C} {usk : Sigkey C} {draws : JoinDraws C}
    {joined : Joined env} (h : gJoin env i gpk gmsk upk usk draws = .ok joined) :
    joined.Of gpk gmsk i draws := by
  rw [gJoin, bind_eq_ok_iff] at h
  obtain ⟨n, -, h⟩ := h
  obtain rfl := Except.ok.inj h
  refine ⟨⟨rfl, rfl, rfl⟩, rfl, ?_, testSigmaProtocol_eq_true ..⟩
  rw [decide_eq_true_eq, C.pair_smul_left, C.pair_smul_right]

namespace Group

variable {group group' : Group env} {request : JoinRequest C} {requests : List (JoinRequest C)}

-- The state after the requests that were met.
structure Keeps (group : Group env) (gpk : Gpk C) (gmsk : Gmsk C)
    (requests : List (JoinRequest C)) : Prop where
  gpk_eq : group.gpk = gpk
  gmsk_eq : group.gmsk = gmsk
  entries : List.Forall₂ (fun request entry =>
    SecretRegister.Of entry gpk request.userId request.draws.ski) requests group.gmskArray
  gsks_eq : group.gsks = requests.map fun request => .issued gpk gmsk request.draws

-- The user's own key has to be for one message.
theorem join_eq_ok_iff : (∃ group', group.join env request = .ok group') ↔
    request.countMsgs = 1 := by
  have hgenerated := keygen_generated env.fromMsgHash₁ env.fromMsgHash₂ request.countMsgs
    request.label request.pki.x request.pki.y
  have hsign := new_eq_ok_iff hgenerated [env.fromMsgHash <| u64ToBeBytes <|
    hashing env env.newHasher (request.draws.ski • group.gpk.g)] request.draws.signature
  have hcount : (keygen env.fromMsgHash₁ env.fromMsgHash₂ request.countMsgs request.label
      request.pki.x request.pki.y).1.y.length = request.countMsgs := by simp [keygen]
  rw [hcount, List.length_singleton, eq_comm (a := 1)] at hsign
  rw [← hsign, join, pkiJoin_eq_ok, ok_bind]
  simp only [bind_eq_ok_iff, pure_eq_ok_iff]
  constructor
  case mp =>
    rintro ⟨_, joined, hjoined, -⟩
    obtain ⟨n, hn⟩ := gJoin_eq_ok_iff.mp ⟨joined, hjoined⟩
    exact ⟨n, unwrapResult_eq_ok_iff.mp hn⟩
  case mpr =>
    rintro ⟨n, hn⟩
    obtain ⟨joined, hjoined⟩ := gJoin_eq_ok_iff.mpr ⟨n, unwrapResult_eq_ok_iff.mpr hn⟩
    exact ⟨_, joined, hjoined, rfl⟩

theorem Keeps.join (h : group.Keeps gpk gmsk requests)
    (hjoin : group.join env request = .ok group') :
    group'.Keeps gpk gmsk (requests ++ [request]) := by
  simp only [Group.join, pkiJoin_eq_ok, ok_bind, bind_eq_ok_iff, pure_eq_ok_iff] at hjoin
  obtain ⟨joined, hjoined, rfl⟩ := hjoin
  have hof := Joined.of_gJoin hjoined
  rw [h.gpk_eq, h.gmsk_eq] at hof
  refine ⟨h.gpk_eq, h.gmsk_eq, List.rel_append h.entries <| .cons hof.entry .nil, ?_⟩
  rw [h.gsks_eq, hof.gsk_eq, List.map_append]
  rfl

theorem run_eq_ok_iff {countMsgs : ℕ} {label : List UInt8} {x y : FieldElement C} :
    (∃ group, run env countMsgs label x y requests = .ok group) ↔
      ∀ request ∈ requests, request.countMsgs = 1 := by
  constructor
  case mp =>
    rintro ⟨group, hrun⟩
    exact foldlM_forall (fun request _ _ group' hjoin => join_eq_ok_iff.mp ⟨group', hjoin⟩) hrun
  case mpr =>
    exact fun hcount => foldlM_ok (fun request hrequest _ =>
      join_eq_ok_iff.mpr <| hcount request hrequest) _

theorem keeps_run {countMsgs : ℕ} {label : List UInt8} {x y : FieldElement C}
    (hrun : run env countMsgs label x y requests = .ok group) :
    group.Keeps (gSetup env countMsgs label x y).1 (gSetup env countMsgs label x y).2
      requests := by
  have hcount := run_eq_ok_iff.mp ⟨group, hrun⟩
  have hstep : ∀ request ∈ requests, ∀ (done : List (JoinRequest C)) (group : Group env),
      group.Keeps (gSetup env countMsgs label x y).1 (gSetup env countMsgs label x y).2 done →
        ∃ group', group.join env request = .ok group' ∧
          group'.Keeps (gSetup env countMsgs label x y).1 (gSetup env countMsgs label x y).2
            (done ++ [request]) := by
    intro request hrequest done group hkeeps
    obtain ⟨group', hjoin⟩ := join_eq_ok_iff.mpr <| hcount request hrequest
    exact ⟨group', hjoin, hkeeps.join hjoin⟩
  obtain ⟨group', hrun', hkeeps⟩ := foldlM_prefix hstep
    (⟨rfl, rfl, .nil, rfl⟩ : Keeps ⟨(gSetup env countMsgs label x y).1, _, [], []⟩ _ _ [])
  obtain rfl := Except.ok.inj <| hrun'.symm.trans hrun
  exact hkeeps

end Group

-- The pair that is signed, and the secret in it: the equation that the manager opens with.
def Mu.Opens (mu : Mu C) (gpk : Gpk C) (ski : FieldElement C) : Prop :=
  C.pair mu.sigma2 gpk.gTilde - C.pair mu.sigma1 gpk.xTilde = ski • C.pair mu.sigma1 gpk.yTilde

instance (mu : Mu C) (gpk : Gpk C) : DecidablePred (mu.Opens gpk) :=
  fun _ => inferInstanceAs (Decidable (_ = _))

theorem Mu.Opens.iff {ski ski' : FieldElement C} (h : mu.Opens gpk ski) :
    mu.Opens gpk ski' ↔ ski' = ski ∨ C.pair mu.sigma1 gpk.yTilde = 0 := by
  rw [Opens, h, eq_comm, ← sub_eq_zero, ← sub_smul, smul_eq_zero, sub_eq_zero]

section Open

variable {requests : List (JoinRequest C)} {gmskArray : List (SecretRegister env)}

theorem openEntry_eq {entry : SecretRegister env} (hentry : entry.Of gpk userId ski)
    (r : FieldElement C) :
    openEntry env gpk mu r entry = if mu.Opens gpk ski then some ⟨userId, true⟩ else none := by
  have hmatch : GT.ate2Pairing mu.sigma2 gpk.gTilde (-mu.sigma1) gpk.xTilde =
      C.pair mu.sigma1 entry.towTilde ↔ mu.Opens gpk ski := by
    rw [GT.ate2Pairing, C.pair_neg_left, ← sub_eq_add_neg, hentry.towTilde_eq, C.pair_smul_right]
    rfl
  have hproof : C.pair (r • gpk.g) entry.towTilde = r • C.pair entry.tow gpk.yTilde := by
    rw [hentry.towTilde_eq, hentry.tow_eq, C.pair_smul_left, C.pair_smul_right, C.pair_smul_left]
  simp only [openEntry, hmatch, hentry.i_eq, hproof, decide_true]

-- The register is walked through in the order of the joins.
theorem gOpen_eq (hentries : List.Forall₂ (fun (request : JoinRequest C)
      (entry : SecretRegister env) => entry.Of gpk request.userId request.draws.ski)
      requests gmskArray) (r : ℕ → FieldElement C) :
    gOpen env gpk gmskArray mu r =
      (requests.filter (mu.Opens gpk ·.draws.ski)).map fun request => ⟨request.userId, true⟩ := by
  have hwalk (k : ℕ) : (gmskArray.zipIdx k).filterMap
      (fun entry => openEntry env gpk mu (r entry.2) entry.1) =
        (requests.filter (mu.Opens gpk ·.draws.ski)).map
          fun request => ⟨request.userId, true⟩ := by
    induction hentries generalizing k
    case nil => rfl
    case cons request entry requests gmskArray hentry _ hi =>
      rw [List.zipIdx_cons, List.filterMap_cons, openEntry_eq hentry, List.filter_cons, hi]
      by_cases hopens : mu.Opens gpk request.draws.ski <;> simp [hopens]
  exact hwalk 0

-- Without a pairing that tells the secrets apart all users are found.
theorem gOpen_of_opens {ski : FieldElement C} (hopens : mu.Opens gpk ski)
    (hentries : List.Forall₂ (fun (request : JoinRequest C) (entry : SecretRegister env) =>
      entry.Of gpk request.userId request.draws.ski) requests gmskArray)
    (r : ℕ → FieldElement C) :
    gOpen env gpk gmskArray mu r =
      (requests.filter fun request =>
        request.draws.ski = ski ∨ C.pair mu.sigma1 gpk.yTilde = 0).map
          fun request => ⟨request.userId, true⟩ := by
  simp only [gOpen_eq hentries, hopens.iff]

end Open

section Sign

variable {ski : FieldElement C} {draws : JoinDraws C} {t k : FieldElement C} {msg : String}

-- The manager's signature under his key.
theorem Gsk.issued_opens {x y : FieldElement C} (draws : JoinDraws C)
    (hx : gpk.xTilde = x • gpk.gTilde) (hy : gpk.yTilde = y • gpk.gTilde) :
    C.pair (Gsk.issued gpk ⟨x, y⟩ draws).sigma2 gpk.gTilde -
        C.pair (Gsk.issued gpk ⟨x, y⟩ draws).sigma1 gpk.xTilde =
      draws.ski • C.pair (Gsk.issued gpk ⟨x, y⟩ draws).sigma1 gpk.yTilde := by
  simp only [issued, hx, hy, C.pair_add_left, C.pair_smul_left, C.pair_smul_right]
  module

theorem gSign_opens {gsk : Gsk C} (h : C.pair gsk.sigma2 gpk.gTilde -
      C.pair gsk.sigma1 gpk.xTilde = ski • C.pair gsk.sigma1 gpk.yTilde) :
    (gSign env gsk msg t k).1.Opens gpk ski := by
  rw [Mu.Opens, gSign]
  dsimp only
  rw [C.pair_smul_left, C.pair_smul_left, C.pair_smul_left, ← smul_sub, h, smul_comm]

-- The verifier computes what the signer hashed.
theorem r_eq (hopens : mu.Opens gpk ski) :
    mu.r gpk = (mu.s - mu.c * ski) • C.pair mu.sigma1 gpk.yTilde := by
  have hsigma2 : C.pair mu.sigma2 gpk.gTilde =
      C.pair mu.sigma1 gpk.xTilde + ski • C.pair mu.sigma1 gpk.yTilde :=
    eq_add_of_sub_eq' hopens
  rw [Mu.r, C.pair_smul_left, C.pair_neg_left, C.pair_smul_left, C.pair_smul_left, hsigma2]
  module

theorem gVerify_gSign {gsk : Gsk C} (he : gsk.e = C.pair gsk.sigma1 gpk.yTilde)
    (h : C.pair gsk.sigma2 gpk.gTilde - C.pair gsk.sigma1 gpk.xTilde =
      gsk.ski • C.pair gsk.sigma1 gpk.yTilde) :
    let signed := gSign env gsk msg t k
    gVerify env gpk signed.1 signed.2.1 signed.2.2 = true := by
  intro signed
  have hr : signed.1.r gpk = t • k • gsk.e := by
    rw [r_eq (gSign_opens h), he]
    simp only [gSign, C.pair_smul_left]
    module
  rw [gVerify, decide_eq_true_eq, hr]
  rfl

end Sign

-- Two answers to one commitment give the secret away that the pair is a signature over.
theorem opens_extracted (hsigma1 : mu.sigma1 = mu'.sigma1) (hsigma2 : mu.sigma2 = mu'.sigma2)
    (hc : mu.c ≠ mu'.c) (hr : mu.r gpk = mu'.r gpk) :
    mu.Opens gpk ((mu.s - mu'.s) / (mu.c - mu'.c)) := by
  have hd : mu.c - mu'.c ≠ 0 := sub_ne_zero.mpr hc
  have hw : (mu.c - mu'.c) • ((mu.s - mu'.s) / (mu.c - mu'.c)) • C.pair mu.sigma1 gpk.yTilde =
      (-mu'.s) • C.pair mu.sigma1 gpk.yTilde - (-mu.s) • C.pair mu.sigma1 gpk.yTilde := by
    rw [smul_smul, mul_div_cancel₀ _ hd]
    module
  refine Sigma.extract_linear hc hw ?_
  rw [Mu.r, Mu.r, ← hsigma1, ← hsigma2] at hr
  simp only [C.pair_smul_left, C.pair_neg_left] at hr
  rw [← sub_eq_zero] at hr ⊢
  rw [← neg_eq_zero, ← hr]
  module

-- Two users with the secrets 3 and 5 in a group with the keys 2 and 4.
section Sample

def envMod7 : Env curveMod7 where
  fromMsgHash₁ _ := mod7 1
  fromMsgHash₂ _ := mod7 1
  fromMsgHash bs := mod7 (bs.map UInt8.toNat).sum
  DefaultHasher := Unit
  newHasher := ()
  finishPoint _ p := UInt64.ofNat (@ZMod.val 7 p)
  finishTuple _ message := UInt64.ofNat (@ZMod.val 7 message.1)

def sampleRequest (userId ski : ℕ) : JoinRequest curveMod7 where
  userId := userId
  countMsgs := 1
  label := []
  pki := { x := mod7 1, y := mod7, msg := mod7, u := mod7 1 }
  draws := { ski := mod7 ski, signature := mod7 1, r := mod7 2, cha := mod7 3, u := mod7 4 }

def sampleRequests : List (JoinRequest curveMod7) :=
  [sampleRequest 1 3, sampleRequest 2 5]

theorem run_sampleRequests :
    ∃ group, Group.run envMod7 1 [] (mod7 2) (mod7 4) sampleRequests = .ok group := by
  rw [Group.run_eq_ok_iff]
  decide

end Sample

-- Every member of the group signs in its name, and is the one that the manager finds: from the
-- register of any later moment, and up to users with the same secret. If a draw is zero, everybody
-- is found.
theorem Group.signed_and_opened (env : Env C) {countMsgs : ℕ} {label : List UInt8}
    {x y : FieldElement C} {requests : List (JoinRequest C)} {group : Group env}
    (hrun : run env countMsgs label x y requests = .ok group) {j : ℕ} {request : JoinRequest C}
    {gsk : Gsk C} (hrequest : requests[j]? = some request) (hgsk : group.gsks[j]? = some gsk)
    (t k : FieldElement C) (msg : String) (r : ℕ → FieldElement C) :
    let signed := gSign env gsk msg t k
    gVerify env group.gpk signed.1 signed.2.1 signed.2.2 = true ∧
      gOpen env group.gpk group.gmskArray signed.1 r =
        (requests.filter fun other => other.draws.ski = request.draws.ski ∨
          t = 0 ∨ request.draws.u = 0 ∨ y = 0 ∨ C.pair group.gpk.g group.gpk.gTilde = 0).map
            fun request => ⟨request.userId, true⟩ := by
  intro signed
  have hkeeps := keeps_run hrun
  have hissued : gsk = .issued group.gpk ⟨x, y⟩ request.draws := by
    rw [hkeeps.gsks_eq, List.getElem?_map, hrequest, Option.map_some] at hgsk
    rw [← Option.some.inj hgsk, hkeeps.gpk_eq]
    rfl
  have hx : group.gpk.xTilde = x • group.gpk.gTilde := by
    rw [hkeeps.gpk_eq]
    rfl
  have hy : group.gpk.yTilde = y • group.gpk.gTilde := by
    rw [hkeeps.gpk_eq]
    rfl
  have hopens := Gsk.issued_opens request.draws hx hy
  rw [← hissued] at hopens
  have hski : gsk.ski = request.draws.ski := by rw [hissued]; rfl
  have he : gsk.e = C.pair gsk.sigma1 group.gpk.yTilde := by rw [hissued]; rfl
  have hzero : C.pair signed.1.sigma1 group.gpk.yTilde = 0 ↔
      t = 0 ∨ request.draws.u = 0 ∨ y = 0 ∨ C.pair group.gpk.g group.gpk.gTilde = 0 := by
    have hsigma1 : signed.1.sigma1 = t • request.draws.u • group.gpk.g := by
      simp only [signed, gSign, hissued]
      rfl
    rw [hsigma1, hy, C.pair_smul_left, C.pair_smul_left, C.pair_smul_right]
    simp only [smul_eq_zero]
  refine ⟨gVerify_gSign he (hski ▸ hopens), ?_⟩
  rw [gOpen_of_opens (gSign_opens hopens) (hkeeps.gpk_eq ▸ hkeeps.entries) r]
  simp only [signed, hzero]

theorem Group.signed_and_opened_two :
    ∃ group gsk, run envMod7 1 [] (mod7 2) (mod7 4) sampleRequests = .ok group ∧
      group.gsks[1]? = some gsk ∧
      let signed := gSign envMod7 gsk "I require 5 boeing 747" (mod7 3) (mod7 6)
      gVerify envMod7 group.gpk signed.1 signed.2.1 signed.2.2 = true ∧
        gOpen envMod7 group.gpk group.gmskArray signed.1 mod7 = [⟨2, true⟩] := by
  obtain ⟨group, hrun⟩ := run_sampleRequests
  have hkeeps := keeps_run hrun
  let gsk : Gsk curveMod7 := ⟨mod7 5, mod7 4, mod7 4, mod7 2⟩
  have hgsk : group.gsks[1]? = some gsk := by
    rw [hkeeps.gsks_eq]
    rfl
  obtain ⟨hverified, hopened⟩ := signed_and_opened envMod7 hrun rfl hgsk (mod7 3) (mod7 6)
    "I require 5 boeing 747" mod7
  refine ⟨group, gsk, hrun, hgsk, hverified, hopened.trans ?_⟩
  rw [hkeeps.gpk_eq]
  decide +kernel

-- A signature that can be answered for two challenges is opened to the users whose secret it is
-- made with, and to nobody if the secret never joined. The pair of two identities, which is one of
-- every secret, is opened to everybody.
theorem Group.extracted_and_opened (env : Env C) {countMsgs : ℕ} {label : List UInt8}
    {x y : FieldElement C} {requests : List (JoinRequest C)} {group : Group env}
    (hrun : run env countMsgs label x y requests = .ok group)
    (hsigma1 : mu.sigma1 = mu'.sigma1) (hsigma2 : mu.sigma2 = mu'.sigma2) (hc : mu.c ≠ mu'.c)
    (hr : mu.r group.gpk = mu'.r group.gpk) (r : ℕ → FieldElement C) :
    let ski := (mu.s - mu'.s) / (mu.c - mu'.c)
    C.pair mu.sigma2 group.gpk.gTilde =
        C.pair mu.sigma1 (group.gpk.xTilde + ski • group.gpk.yTilde) ∧
      gOpen env group.gpk group.gmskArray mu r =
        (requests.filter fun request =>
          request.draws.ski = ski ∨ C.pair mu.sigma1 group.gpk.yTilde = 0).map
            fun request => ⟨request.userId, true⟩ := by
  intro ski
  have hopens : mu.Opens group.gpk ski := opens_extracted hsigma1 hsigma2 hc hr
  have hkeeps := keeps_run hrun
  refine ⟨?_, gOpen_of_opens hopens (hkeeps.gpk_eq ▸ hkeeps.entries) r⟩
  rw [C.pair_add_right, C.pair_smul_right]
  exact eq_add_of_sub_eq' hopens

-- The second user answers the challenges 1 and 2.
theorem Group.extracted_and_opened_two :
    let mu (c : ℕ) : Mu curveMod7 := ⟨mod7 5, mod7 5, mod7 c, mod7 (6 + c * 5)⟩
    ∃ group, run envMod7 1 [] (mod7 2) (mod7 4) sampleRequests = .ok group ∧
      gOpen envMod7 group.gpk group.gmskArray (mu 1) mod7 = [⟨2, true⟩] := by
  intro mu
  obtain ⟨group, hrun⟩ := run_sampleRequests
  have hkeeps := keeps_run hrun
  have hr : (mu 1).r group.gpk = (mu 2).r group.gpk := by
    rw [hkeeps.gpk_eq]
    decide
  have hc : (mu 1).c ≠ (mu 2).c := by decide
  have hsigma1 : (mu 1).sigma1 = (mu 2).sigma1 := rfl
  have hopened := (extracted_and_opened envMod7 hrun hsigma1 rfl hc hr mod7).right
  refine ⟨group, hrun, hopened.trans ?_⟩
  rw [hkeeps.gpk_eq]
  decide +kernel

-- The pair is not checked to differ from the identity. With two identities anybody signs any
-- message, and every user is named for it.
theorem Group.forged_and_opened (env : Env C) {countMsgs : ℕ} {label : List UInt8}
    {x y : FieldElement C} {requests : List (JoinRequest C)} {group : Group env}
    (hrun : run env countMsgs label x y requests = .ok group)
    (hashForTuple : env.DefaultHasher) (msg : String) (s : FieldElement C)
    (r : ℕ → FieldElement C) :
    let c := env.fromMsgHash <| u64ToBeBytes <| h1 env hashForTuple (0, 0, 0, msg)
    let mu : Mu C := { sigma1 := 0, sigma2 := 0, c, s }
    gVerify env group.gpk mu hashForTuple msg = true ∧
      gOpen env group.gpk group.gmskArray mu r =
        requests.map fun request => ⟨request.userId, true⟩ := by
  intro c mu
  have hpair (y : OtherGroup C) : C.pair 0 y = 0 := C.pair_zero_left y
  constructor
  · have hr : mu.r group.gpk = 0 := by
      simp only [Mu.r, mu, neg_zero, smul_zero, hpair, add_zero]
    rw [gVerify, decide_eq_true_eq, hr]
  · have hkeeps := keeps_run hrun
    have hopens (ski : FieldElement C) : mu.Opens group.gpk ski := by
      simp only [Mu.Opens, mu, hpair, sub_zero, smul_zero]
    rw [gOpen_eq (hkeeps.gpk_eq ▸ hkeeps.entries)]
    simp only [hopens, decide_true, List.filter_true]

theorem Group.forged_and_opened_two :
    let c := envMod7.fromMsgHash <| u64ToBeBytes <| h1 envMod7 () (0, 0, 0, "by anybody")
    let mu : Mu curveMod7 := ⟨0, 0, c, mod7 1⟩
    ∃ group, run envMod7 1 [] (mod7 2) (mod7 4) sampleRequests = .ok group ∧
      gVerify envMod7 group.gpk mu () "by anybody" = true ∧
        gOpen envMod7 group.gpk group.gmskArray mu mod7 = [⟨1, true⟩, ⟨2, true⟩] := by
  intro c mu
  obtain ⟨group, hrun⟩ := run_sampleRequests
  exact ⟨group, hrun, forged_and_opened envMod7 hrun () "by anybody" (mod7 1) mod7⟩

end Ursa.Scenario
