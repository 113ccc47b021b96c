import OptnWallet.Core.Fusion.Schnorr
import OptnWallet.Library.ScalarSchemes

/-
  What a blind signature is worth.  The unblinded answer of the issuer verifies; the view of the
  issuer goes with every finished signature in the same number of ways; and a nonce answers once.
  Other signatures have a nonce that is derived from the key and the message.

  Main declarations:
    * `Schnorr.linkingPairs_eq`
    * `Schnorr.BlindIssuer.answered_nodup`
    * `Schnorr.blind_credentials`
    * `Schnorr.sign` and `Schnorr.sign_verifies`
-/

--- Scalars

namespace OptnWallet.Schnorr

open StagedUpdate BlindSchnorr

theorem natOfBytesBE_scalarBytes {value : Nat} (hLt : value < 2 ^ 256) :
    natOfBytesBE (Rpa.scalarBytes value).toList = value :=
  natOfBytesBE_bytesBE (by
    rw [show 256 ^ 32 = 2 ^ 256 by decide]
    exact hLt)

theorem scalarBytes_natOfBytesBE (bytes : Vector UInt8 32) :
    Rpa.scalarBytes (natOfBytesBE bytes.toList) = bytes := by
  apply Vector.toList_inj.mp
  change bytesBE (natOfBytesBE bytes.toList) 32 = bytes.toList
  have hLength : bytes.toList.reverse.length = 32 := by
    rw [List.length_reverse, Vector.length_toList]
  have hBytes := bytesLE_natOfBytesLE bytes.toList.reverse
  rw [hLength] at hBytes
  unfold bytesBE natOfBytesBE
  rw [hBytes, List.reverse_reverse]

variable {n : Nat} {Point : Type} [AddCommGroup Point] [Module (ZMod n) Point] [DecidableEq Point]

section Scalars

variable [NeZero n]

section

variable (hOrder : n ≤ 2 ^ 256) (scalar : ZMod n)
include hOrder

theorem natOfBytesBE_toBytes : natOfBytesBE (toBytes scalar).toList = scalar.val :=
  natOfBytesBE_scalarBytes (lt_of_lt_of_le scalar.val_lt hOrder)

theorem scalarReduce_toBytes : scalarReduce (toBytes scalar) = scalar := by
  unfold scalarReduce
  rw [natOfBytesBE_toBytes hOrder]
  exact ZMod.natCast_zmod_val scalar

theorem fromRepr_toBytes : fromRepr (toBytes scalar) = some scalar := by
  unfold fromRepr
  rw [scalarReduce_toBytes hOrder, natOfBytesBE_toBytes hOrder, if_pos scalar.val_lt]

end

omit [NeZero n] in
theorem toBytes_of_fromRepr {bytes : Vector UInt8 32} {scalar : ZMod n}
    (hRepr : fromRepr bytes = some scalar) : toBytes scalar = bytes := by
  unfold fromRepr at hRepr
  split at hRepr
  · rename_i hLt
    rw [← Option.some.inj hRepr]
    unfold toBytes scalarReduce
    rw [ZMod.val_natCast_of_lt hLt]
    exact scalarBytes_natOfBytesBE bytes
  · cases hRepr

theorem toBytes_injective (hOrder : n ≤ 2 ^ 256) :
    Function.Injective (toBytes : ZMod n → Vector UInt8 32) := by
  intro first second hSame
  rw [← scalarReduce_toBytes hOrder first, hSame, scalarReduce_toBytes hOrder]

end Scalars

--- Points

variable {curve : Curve n Point} {sha256 : List UInt8 → Vector UInt8 32} {point : Point}

theorem compressed_eq_ok_iff {bytes : Vector UInt8 33} :
    compressed curve point = .ok bytes ↔ point ≠ 0 ∧ curve.encode point = bytes := by
  unfold compressed
  by_cases hZero : point = 0
  · rw [if_pos hZero]
    constructor
    · intro hOk
      cases hOk
    · intro hPoint
      exact absurd hZero hPoint.1
  · rw [if_neg hZero]
    constructor
    · intro hOk
      exact ⟨hZero, Except.ok.inj hOk⟩
    · intro hPoint
      exact congrArg Except.ok hPoint.2

theorem parsePoint_of_compressed {bytes : Vector UInt8 33}
    (hBytes : compressed curve point = .ok bytes) : curve.parsePoint bytes.toList = .ok point := by
  rcases compressed_eq_ok_iff.mp hBytes with ⟨hPoint, hEncode⟩
  rw [← hEncode]
  exact curve.parse_encode point hPoint

omit [DecidableEq Point] in
theorem smul_generator_ne_zero (curve : Curve n Point) {key : ZMod n} (hKey : key ≠ 0) :
    key • curve.generator ≠ 0 := by
  have : Fact n.Prime := ⟨curve.prime⟩
  exact smul_ne_zero hKey curve.generator_ne_zero

theorem affineXy_of_ne (hPoint : point ≠ 0) : affineXy curve point = .ok (curve.affine point) :=
  if_neg hPoint

/- The challenge of a key that is not the identity. -/
def challengeOf (curve : Curve n Point) (sha256 : List UInt8 → Vector UInt8 32) (key : Point)
    (rx msg32 : Vector UInt8 32) : ZMod n :=
  scalarReduce (sha256 (rx.toList ++ (curve.encode key).toList ++ msg32.toList))

theorem challenge_eq {key : Point} (hKey : key ≠ 0) (rx msg32 : Vector UInt8 32) :
    challenge curve sha256 rx key msg32 = .ok (challengeOf curve sha256 key rx msg32) := by
  unfold challenge
  rw [bind_of_ok (compressed_eq_ok_iff.mpr ⟨hKey, rfl⟩)]
  rfl

theorem matchesPoint_eq_true_iff {r : Point} {rbytes : Vector UInt8 32} :
    matchesPoint curve r rbytes = .ok true ↔
    r ≠ 0 ∧ yIsQuadraticResidue (curve.affine r).2 = true ∧ (curve.affine r).1 = rbytes := by
  unfold matchesPoint
  by_cases hZero : r = 0
  · rw [if_pos hZero]
    constructor
    · intro hOk
      cases Except.ok.inj hOk
    · intro hPoint
      exact absurd hZero hPoint.1
  · rw [if_neg hZero, bind_of_ok (affineXy_of_ne hZero)]
    by_cases hResidue : yIsQuadraticResidue (curve.affine r).2 = true
    · rw [if_pos hResidue, Except.ok.injEq, decide_eq_true_eq]
      exact ⟨fun hSame => ⟨hZero, hResidue, hSame⟩, fun hPoint => hPoint.2.2⟩
    · rw [if_neg hResidue]
      constructor
      · intro hOk
        cases Except.ok.inj hOk
      · intro hPoint
        exact absurd hPoint.2.1 hResidue

/- A signature that verifies: its scalar is canonical, and the recovered point is that of the
   signature. -/
theorem verify_eq_true_iff {pubkey : List UInt8} {key : Point}
    (hParse : curve.parsePoint pubkey = .ok key) (hKey : key ≠ 0) {sig : Signature}
    {msg32 : Vector UInt8 32} :
    verify curve sha256 pubkey sig msg32 = .ok true ↔
    ∃ s r,
      fromRepr sig.s = some s ∧
        recovered curve.generator key s (challengeOf curve sha256 key sig.rx msg32) = r ∧
        r ≠ 0 ∧
        yIsQuadraticResidue (curve.affine r).2 = true ∧
        (curve.affine r).1 = sig.rx := by
  unfold verify
  rw [hParse]
  dsimp only
  cases hRepr : fromRepr (n := n) sig.s with
  | none =>
    constructor
    · intro hOk
      cases Except.ok.inj hOk
    · rintro ⟨s, r, hSome, -⟩
      cases hSome
  | some s =>
    dsimp only
    rw [bind_of_ok (challenge_eq hKey _ _), matchesPoint_eq_true_iff]
    constructor
    · intro hPoint
      exact ⟨s, _, rfl, rfl, hPoint⟩
    · rintro ⟨other, r, hSome, hSame, hPoint⟩
      cases hSome
      rw [← hSame] at hPoint
      exact hPoint

--- Signs

def signOf (n : Nat) (flip : Bool) : ZMod n :=
  if flip then -1 else 1

theorem signOf_mul_self (flip : Bool) : signOf n flip * signOf n flip = 1 := by
  cases flip
  · exact one_mul 1
  · exact (neg_mul_neg (1 : ZMod n) 1).trans (one_mul 1)

theorem ite_neg_eq (flip : Bool) (scalar : ZMod n) :
    (if flip then -scalar else scalar) = signOf n flip * scalar := by
  cases flip
  · exact (one_mul scalar).symm
  · exact (neg_one_mul scalar).symm

/- A point under a sign, which decides its residue and leaves its x coordinate as it is. -/
omit [DecidableEq Point] in
theorem signed_point (curve : Curve n Point) (hPoint : point ≠ 0) (flip : Bool) :
    signOf n flip • point ≠ 0 ∧
    yIsQuadraticResidue (curve.affine (signOf n flip • point)).2 =
      (flip ^^ yIsQuadraticResidue (curve.affine point).2) ∧
    (curve.affine (signOf n flip • point)).1 = (curve.affine point).1 := by
  cases flip
  · have hOne : signOf n false • point = point := one_smul _ _
    rw [hOne]
    exact ⟨hPoint, (Bool.false_xor _).symm, rfl⟩
  · have hNeg : signOf n true • point = -point := neg_one_smul _ _
    rw [hNeg, curve.residue_neg point hPoint, curve.x_neg point hPoint]
    exact ⟨neg_ne_zero.mpr hPoint, (Bool.true_xor _).symm, rfl⟩

--- Requests

section Requests

variable {roundPubkey r : List UInt8} {key nonce : Point} {msg32 : Vector UInt8 32} {a b : ZMod n}

omit [AddCommGroup Point] [Module (ZMod n) Point] [DecidableEq Point] in
theorem unblind_toBytes [NeZero n] (hOrder : n ≤ 2 ^ 256) (self : BlindSignatureRequest n Point)
    (s : ZMod n) :
    self.unblind (toBytes s) =
      { rx := self.rxNew
        s := toBytes (signOf n self.signFlip * (s + self.a)) } := by
  unfold BlindSignatureRequest.unblind
  rw [scalarReduce_toBytes hOrder]
  dsimp only
  rw [ite_neg_eq]

/- The request of a shifted nonce point. -/
def requestOf (curve : Curve n Point) (sha256 : List UInt8 → Vector UInt8 32) (key shifted : Point)
    (msg32 : Vector UInt8 32) (a b : ZMod n) : BlindSignatureRequest n Point :=
  let rx := (curve.affine shifted).1
  let flip := !yIsQuadraticResidue (curve.affine shifted).2
  { pubkeyPoint := key
    messageHash := msg32
    a
    rxNew := rx
    signFlip := flip
    e := signOf n flip * challengeOf curve sha256 key rx msg32 + b }

theorem newWithBlinding_eq_ok_iff (hRoundPubkey : curve.parsePoint roundPubkey = .ok key)
    (hR : curve.parsePoint r = .ok nonce) (hKey : key ≠ 0)
    {request : BlindSignatureRequest n Point} :
    BlindSignatureRequest.newWithBlinding curve sha256 roundPubkey r msg32 a b = .ok request ↔
    blinded curve.generator key nonce a b ≠ 0 ∧
      requestOf curve sha256 key (blinded curve.generator key nonce a b) msg32 a b = request := by
  unfold BlindSignatureRequest.newWithBlinding
  rw [bind_of_ok (mapError_eq_ok_iff.mpr hRoundPubkey), bind_of_ok (mapError_eq_ok_iff.mpr hR)]
  dsimp only
  by_cases hZero : nonce + a • curve.generator + b • key = 0
  · rw [if_pos hZero]
    constructor
    · intro hOk
      cases hOk
    · intro hRequest
      exact absurd hZero hRequest.1
  · rw [if_neg hZero, bind_of_ok (affineXy_of_ne hZero), bind_of_ok (challenge_eq hKey _ _),
      ite_neg_eq]
    constructor
    · intro hOk
      exact ⟨hZero, Except.ok.inj hOk⟩
    · intro hRequest
      exact congrArg Except.ok hRequest.2

/- What is finalized is the unblinded answer, and where that verifies nothing stands in the way. -/
theorem finalize_eq_ok_of_verify {self : BlindSignatureRequest n Point}
    {sResponse : Vector UInt8 32} (hKey : self.pubkeyPoint ≠ 0)
    (hValid :
      verify curve sha256 (curve.encode self.pubkeyPoint).toList (self.unblind sResponse)
          self.messageHash = .ok true) (check : Bool) :
    self.finalize curve sha256 sResponse check = .ok (self.unblind sResponse) := by
  unfold BlindSignatureRequest.finalize
  cases check with
  | false => rfl
  | true =>
    dsimp only
    rw [if_pos rfl, bind_of_ok (compressed_eq_ok_iff.mpr ⟨hKey, rfl⟩), bind_of_ok hValid]
    rfl

variable {sig : Signature}

theorem eq_unblind_of_finalize {self : BlindSignatureRequest n Point} {sResponse : Vector UInt8 32}
    {check : Bool} (hFinalize : self.finalize curve sha256 sResponse check = .ok sig) :
    self.unblind sResponse = sig := by
  unfold BlindSignatureRequest.finalize at hFinalize
  cases check with
  | false => exact Except.ok.inj hFinalize
  | true =>
    dsimp only at hFinalize
    rw [if_pos rfl] at hFinalize
    rcases bind_eq_ok_iff.mp hFinalize with ⟨pubkey, -, hFinalize⟩
    rcases bind_eq_ok_iff.mp hFinalize with ⟨valid, -, hFinalize⟩
    cases valid with
    | false => cases hFinalize
    | true => exact Except.ok.inj hFinalize

variable {x k : ZMod n}

/- The answer of the issuer verifies once it is unblinded. -/
theorem unblind_verifies [NeZero n] (hKey : x • curve.generator ≠ 0)
    {request : BlindSignatureRequest n Point}
    (hShifted : blinded curve.generator (x • curve.generator) (k • curve.generator) a b ≠ 0)
    (hRequest :
        requestOf curve sha256 (x • curve.generator)
            (blinded curve.generator (x • curve.generator) (k • curve.generator) a b) msg32 a b =
          request) :
    verify curve sha256 (curve.encode request.pubkeyPoint).toList
        (request.unblind (toBytes (k + request.e * x))) request.messageHash = .ok true := by
  rw [← hRequest, unblind_toBytes curve.order_le]
  unfold requestOf
  dsimp only
  generalize hNew : blinded curve.generator (x • curve.generator) (k • curve.generator) a b =
    shifted at hShifted
  apply (verify_eq_true_iff (curve.parse_encode _ hKey) hKey).mpr
  have hSigned := signed_point curve hShifted (!yIsQuadraticResidue (curve.affine shifted).2)
  refine
    ⟨_, _, fromRepr_toBytes curve.order_le _,
      (unblind_eq curve.generator (signOf_mul_self _) rfl rfl).trans (by rw [hNew]), hSigned.1, ?_,
      hSigned.2.2⟩
  rw [hSigned.2.1]
  cases yIsQuadraticResidue (curve.affine shifted).2
  · rfl
  · rfl

/- The blinding pairs that make the view of the issuer, its request and its answer, end in a
   finished signature. -/
def linkingPairs (curve : Curve n Point) (sha256 : List UInt8 → Vector UInt8 32)
    (pubkey r : List UInt8) (eBytes sBytes : Vector UInt8 32) (check : Bool)
    (msg32 : Vector UInt8 32) (sig : Signature) : Set (ZMod n × ZMod n) :=
  {pair | ∃ request,
    BlindSignatureRequest.newWithBlinding curve sha256 pubkey r msg32 pair.1 pair.2 = .ok request ∧
      request.request = eBytes ∧
      request.finalize curve sha256 sBytes check = .ok sig}

variable {e s' : ZMod n}

/- A linking pair belongs to one of the signs. -/
theorem eq_of_linking [NeZero n] (hRoundPubkey : curve.parsePoint roundPubkey = .ok key)
    (hR : curve.parsePoint r = .ok nonce) (hKey : key ≠ 0) {s : ZMod n} {check : Bool}
    (hRepr : fromRepr sig.s = some s')
    (hLinks :
        (a, b) ∈ linkingPairs curve sha256 roundPubkey r (toBytes e) (toBytes s) check msg32 sig) :
    ∃ flip,
    a = signOf n flip * s' - s ∧
      b = e - signOf n flip * challengeOf curve sha256 key sig.rx msg32 := by
  rcases hLinks with ⟨request, hNew, hRequest, hFinalize⟩
  rcases (newWithBlinding_eq_ok_iff hRoundPubkey hR hKey).mp hNew with ⟨-, hOf⟩
  have hSig := eq_unblind_of_finalize hFinalize
  rw [← hOf] at hSig hRequest
  rw [unblind_toBytes curve.order_le] at hSig
  unfold requestOf at hSig
  dsimp only at hSig
  unfold BlindSignatureRequest.request requestOf at hRequest
  dsimp only at hRequest
  have hE := toBytes_injective curve.order_le hRequest
  rw [← hSig, fromRepr_toBytes curve.order_le] at hRepr
  have hFinished := (Option.some.inj hRepr).symm
  rw [← hSig]
  exact ⟨!yIsQuadraticResidue (curve.affine (blinded curve.generator key nonce a b)).2,
    (links_iff (signOf_mul_self _)).mp ⟨hE.symm, hFinished⟩⟩

/- Each sign gives a linking pair. -/
theorem linking_of_sign [NeZero n] {pubkey : Vector UInt8 33}
    (hPubkey : compressed curve (x • curve.generator) = .ok pubkey)
    (hR : curve.parsePoint r = .ok (k • curve.generator)) (hRepr : fromRepr sig.s = some s')
    {point : Point}
    (hPoint :
      recovered curve.generator (x • curve.generator) s'
          (challengeOf curve sha256 (x • curve.generator) sig.rx msg32) = point)
    (hNonzero : point ≠ 0) (hResidue : yIsQuadraticResidue (curve.affine point).2 = true)
    (hX : (curve.affine point).1 = sig.rx) (check flip : Bool) :
    (signOf n flip * s' - (k + e * x),
          e - signOf n flip * challengeOf curve sha256 (x • curve.generator) sig.rx msg32) ∈
      linkingPairs curve sha256 pubkey.toList r (toBytes e) (toBytes (k + e * x)) check msg32
        sig := by
  rcases compressed_eq_ok_iff.mp hPubkey with ⟨hKey, hEncode⟩
  have hSigned := signed_point curve hNonzero flip
  have hShifted :
      blinded curve.generator (x • curve.generator) (k • curve.generator)
          (signOf n flip * s' - (k + e * x))
          (e - signOf n flip * challengeOf curve sha256 (x • curve.generator) sig.rx msg32) =
        signOf n flip • point :=
    (blinded_eq curve.generator rfl).trans (by rw [hPoint])
  have hFlip : (!yIsQuadraticResidue (curve.affine (signOf n flip • point)).2) = flip := by
    rw [hSigned.2.1, hResidue]
    cases flip
    · rfl
    · rfl
  have hXSigned := hSigned.2.2.trans hX
  have hUnblind :
      (requestOf curve sha256 (x • curve.generator) (signOf n flip • point) msg32
            (signOf n flip * s' - (k + e * x))
            (e -
              signOf n flip * challengeOf curve sha256 (x • curve.generator) sig.rx msg32)).unblind
          (toBytes (k + e * x)) = sig := by
    rw [unblind_toBytes curve.order_le]
    unfold requestOf
    dsimp only
    rw [hFlip, hXSigned, add_sub_cancel, ← mul_assoc, signOf_mul_self, one_mul,
      toBytes_of_fromRepr hRepr]
  refine ⟨_, (newWithBlinding_eq_ok_iff (parsePoint_of_compressed hPubkey) hR hKey).mpr ⟨?_, rfl⟩,
    ?_, ?_⟩
  · rw [hShifted]
    exact hSigned.1
  · unfold BlindSignatureRequest.request requestOf
    dsimp only
    rw [hShifted, hFlip, hXSigned, add_sub_cancel]
  · rw [hShifted]
    refine (finalize_eq_ok_of_verify hKey ?_ check).trans (congrArg Except.ok hUnblind)
    rw [hUnblind]
    exact (verify_eq_true_iff (curve.parse_encode _ hKey) hKey).mpr
      ⟨s', point, hRepr, hPoint, hNonzero, hResidue, hX⟩

/- The two pairs of one signature differ: with the sign the recovered point changes its residue. -/
omit [DecidableEq Point] in
theorem pairs_ne {s h : ZMod n} {point : Point}
    (hPoint : recovered curve.generator key s' h = point) (hNonzero : point ≠ 0) :
    (s' - s, e - h) ≠ (-s' - s, e + h) := by
  intro hSame
  rcases Prod.mk.inj hSame with ⟨hFirst, hSecond⟩
  have hS : -s' = s' := by linear_combination -hFirst
  have hH : -h = h := by linear_combination hSecond
  have hNeg : -point = point := by
    rw [← hPoint]
    unfold recovered
    rw [neg_sub', ← neg_smul, ← neg_smul, hS, hH]
  have hResidue := curve.residue_neg point hNonzero
  rw [hNeg] at hResidue
  exact (Bool.eq_not_self _).mp hResidue

/- A signature that verifies is linked to every view by one pair for each sign, and by no other. -/
theorem linkingPairs_eq [NeZero n] {pubkey : Vector UInt8 33}
    (hPubkey : compressed curve (x • curve.generator) = .ok pubkey)
    (hR : curve.parsePoint r = .ok (k • curve.generator))
    (hValid : verify curve sha256 pubkey.toList sig msg32 = .ok true) (e : ZMod n) (check : Bool) :
    ∃ s' h,
    fromRepr sig.s = some s' ∧
      challenge curve sha256 sig.rx (x • curve.generator) msg32 = .ok h ∧
      linkingPairs curve sha256 pubkey.toList r (toBytes e) (toBytes (k + e * x)) check msg32 sig =
        {(s' - (k + e * x), e - h), (-s' - (k + e * x), e + h)} ∧
      (s' - (k + e * x), e - h) ≠ (-s' - (k + e * x), e + h) := by
  have hKey := (compressed_eq_ok_iff.mp hPubkey).1
  have hParse := parsePoint_of_compressed hPubkey
  rcases (verify_eq_true_iff hParse hKey).mp hValid with
    ⟨s', point, hRepr, hPoint, hNonzero, hResidue, hX⟩
  refine ⟨s', _, hRepr, challenge_eq hKey _ _, ?_, pairs_ne hPoint hNonzero⟩
  have hSign (flip : Bool) :=
    linking_of_sign (e := e) hPubkey hR hRepr hPoint hNonzero hResidue hX check flip
  apply Set.Subset.antisymm
  · rintro ⟨a, b⟩ hLinks
    rcases eq_of_linking hParse hR hKey hRepr hLinks with ⟨flip, hA, hB⟩
    rw [hA, hB]
    cases flip with
    | false =>
      left
      unfold signOf
      simp
    | true =>
      right
      unfold signOf
      simp
  · rintro pair (hPair | hPair)
    · rw [hPair]
      have hPlus := hSign false
      unfold signOf at hPlus
      simpa using hPlus
    · rw [hPair]
      have hMinus := hSign true
      unfold signOf at hMinus
      simpa using hMinus

end Requests

--- Issuers

namespace BlindIssuer

/- The slots that a sequence of calls is answered from. -/
def answered : BlindIssuer n → List (Nat × Vector UInt8 32) → List Nat
  | _, [] => []
  | self, call :: calls =>
    let result := self.sign call.1 call.2
    if result.1.isOk then call.1 :: answered result.2 calls
    else answered result.2 calls

variable {self : BlindIssuer n} {index : Nat}

theorem sign_eq_ok {k : ZMod n}
    (hSlot : self.nonces[index]? = some (some k)) (eBytes : Vector UInt8 32) :
    self.sign index eBytes = (.ok (toBytes (k + scalarReduce eBytes * self.x)),
        { x := self.x
          nonces := self.nonces.set index none }) := by
  unfold sign
  rw [hSlot]

/- A slot that holds a nonce after a call held it before, and was not answered. -/
theorem slot_of_sign {other : Nat} {eBytes : Vector UInt8 32} {k : ZMod n}
    (hSlot : (self.sign index eBytes).2.nonces[other]? = some (some k)) :
    self.nonces[other]? = some (some k) ∧
    ((self.sign index eBytes).1.isOk = true → other ≠ index) := by
  cases hHere : self.nonces[index]? with
  | none =>
    unfold sign at hSlot ⊢
    rw [hHere] at hSlot ⊢
    refine ⟨hSlot, ?_⟩
    intro hOk
    cases hOk
  | some slot =>
    cases slot with
    | none =>
      unfold sign at hSlot ⊢
      rw [hHere] at hSlot ⊢
      refine ⟨hSlot, ?_⟩
      intro hOk
      cases hOk
    | some nonce =>
      rw [sign_eq_ok hHere] at hSlot
      dsimp only at hSlot
      have hLength : index < self.nonces.length := (List.getElem?_eq_some_iff.mp hHere).1
      by_cases hSame : index = other
      · rw [← hSame, List.getElem?_set_self hLength] at hSlot
        cases Option.some.inj hSlot
      · rw [List.getElem?_set_ne hSame] at hSlot
        exact ⟨hSlot, fun _ hEq => hSame hEq.symm⟩

/- Only slots that hold a nonce are answered.  By induction over the calls. -/
theorem slot_of_mem_answered {calls : List (Nat × Vector UInt8 32)}
    (hMem : index ∈ self.answered calls) : ∃ k, self.nonces[index]? = some (some k) := by
  induction calls generalizing self with
  | nil => cases hMem
  | cons call calls ih =>
    unfold answered at hMem
    dsimp only at hMem
    split at hMem
    · rename_i hOk
      rcases List.mem_cons.mp hMem with hEq | hMem
      · rw [hEq]
        cases hHere : self.nonces[call.1]? with
        | none =>
          unfold sign at hOk
          rw [hHere] at hOk
          cases hOk
        | some slot =>
          cases slot with
          | none =>
            unfold sign at hOk
            rw [hHere] at hOk
            cases hOk
          | some k => exact ⟨k, rfl⟩
      · rcases ih hMem with ⟨k, hSlot⟩
        exact ⟨k, (slot_of_sign hSlot).1⟩
    · rcases ih hMem with ⟨k, hSlot⟩
      exact ⟨k, (slot_of_sign hSlot).1⟩

/- Every slot is answered at most once. -/
theorem answered_nodup (self : BlindIssuer n) (calls : List (Nat × Vector UInt8 32)) :
    (self.answered calls).Nodup := by
  induction calls generalizing self with
  | nil => exact List.nodup_nil
  | cons call calls ih =>
    unfold answered
    dsimp only
    split
    · rename_i hOk
      refine List.nodup_cons.mpr ⟨?_, ih _⟩
      intro hMem
      rcases slot_of_mem_answered hMem with ⟨k, hSlot⟩
      exact (slot_of_sign hSlot).2 hOk rfl
    · exact ih _

theorem slot_of_rPoint {r : Vector UInt8 33} (hR : self.rPoint curve index = .ok r) :
    ∃ k, self.nonces[index]? = some (some k) ∧ compressed curve (k • curve.generator) = .ok r := by
  unfold rPoint at hR
  cases hHere : self.nonces[index]? with
  | none =>
    rw [hHere] at hR
    cases hR
  | some slot =>
    rw [hHere] at hR
    cases slot with
    | none => cases hR
    | some k => exact ⟨k, rfl, hR⟩

end BlindIssuer

--- Credentials

/-
  A finalized signature verifies, whether or not it is checked on the way.  Whatever view an
  issuer has and whatever signature verifies under its key, exactly two blinding pairs link them,
  one for each sign, so the view says nothing about which signature it ended in.  A slot answers
  once.
-/
theorem blind_credentials (curve : Curve n Point) (sha256 : List UInt8 → Vector UInt8 32) :
    (∀ (issuer : BlindIssuer n) index pubkey r msg32 a b request,
        issuer.pubkey curve = .ok pubkey →
          issuer.rPoint curve index = .ok r →
          BlindSignatureRequest.newWithBlinding curve sha256 pubkey.toList r.toList msg32 a b =
            .ok request →
          ∃ sResponse sig,
            (issuer.sign index request.request).1 = .ok sResponse ∧
              verify curve sha256 pubkey.toList sig msg32 = .ok true ∧
              ∀ check, request.finalize curve sha256 sResponse check = .ok sig) ∧
    (∀ x k e pubkey r msg32 sig check,
        compressed curve (x • curve.generator) = .ok pubkey →
          compressed curve (k • curve.generator) = .ok r →
          verify curve sha256 pubkey.toList sig msg32 = .ok true →
          ∃ s' h,
            fromRepr sig.s = some s' ∧
              challenge curve sha256 sig.rx (x • curve.generator) msg32 = .ok h ∧
              linkingPairs curve sha256 pubkey.toList r.toList (toBytes e) (toBytes (k + e * x))
                  check msg32 sig = {(s' - (k + e * x), e - h), (-s' - (k + e * x), e + h)} ∧
              (linkingPairs curve sha256 pubkey.toList r.toList (toBytes e) (toBytes (k + e * x))
                    check msg32 sig).ncard = 2) ∧
    ∀ (issuer : BlindIssuer n) calls, (issuer.answered calls).Nodup := by
  have hPrime : NeZero n := ⟨curve.prime.ne_zero⟩
  refine ⟨?_, ?_, BlindIssuer.answered_nodup⟩
  · intro issuer index pubkey r msg32 a b request hPubkey hR hNew
    rcases BlindIssuer.slot_of_rPoint hR with ⟨k, hSlot, hPoint⟩
    have hKey := (compressed_eq_ok_iff.mp hPubkey).1
    rcases
      (newWithBlinding_eq_ok_iff (parsePoint_of_compressed hPubkey)
        (parsePoint_of_compressed hPoint) hKey).mp hNew with ⟨hShifted, hRequest⟩
    have hValid := unblind_verifies hKey hShifted hRequest
    have hRequestKey : request.pubkeyPoint = issuer.x • curve.generator := by
      rw [← hRequest]
      rfl
    have hMessage : request.messageHash = msg32 := by
      rw [← hRequest]
      rfl
    refine ⟨toBytes (k + request.e * issuer.x),
      request.unblind (toBytes (k + request.e * issuer.x)), ?_, ?_, ?_⟩
    · rw [BlindIssuer.sign_eq_ok hSlot]
      unfold BlindSignatureRequest.request
      rw [scalarReduce_toBytes curve.order_le]
    · rw [hMessage, hRequestKey, (compressed_eq_ok_iff.mp hPubkey).2] at hValid
      exact hValid
    · intro check
      apply finalize_eq_ok_of_verify _ hValid
      rw [hRequestKey]
      exact hKey
  · intro x k e pubkey r msg32 sig check hPubkey hR hValid
    rcases linkingPairs_eq hPubkey (parsePoint_of_compressed hR) hValid e check with
      ⟨s', h, hRepr, hChallenge, hPairs, hApart⟩
    refine ⟨s', h, hRepr, hChallenge, hPairs, ?_⟩
    rw [hPairs]
    exact Set.ncard_pair hApart

--- Samples

/- Seven points, numbered by their scalars.  The y coordinate of the lower half is one, and of the
   upper half its negative. -/
def sevenEncode (point : ZMod 7) : Vector UInt8 33 :=
  (Vector.replicate 32 2).push (UInt8.ofNat point.val)

def sevenParse (bytes : List UInt8) : Except String (ZMod 7) :=
  if bytes.length = 33 then .ok ((bytes.getLastD 0).toNat : ZMod 7)
  else .error "point could not be parsed"

def sevenAffine (point : ZMod 7) : Vector UInt8 32 × Vector UInt8 32 :=
  if point.val ≤ 3 then (Rpa.scalarBytes point.val, Rpa.scalarBytes 1)
  else (Rpa.scalarBytes (7 - point.val), Rpa.scalarBytes (fieldP - 1))

theorem seven_prime : Nat.Prime 7 := by
  decide

theorem seven_le : 7 ≤ 2 ^ 256 := by
  decide

def sevenPoints : Curve 7 (ZMod 7) where
  prime := seven_prime
  order_le := seven_le
  generator := 1
  encode := sevenEncode
  parsePoint := sevenParse
  affine := sevenAffine
  generator_ne_zero := by decide
  parse_encode := by decide +kernel
  x_neg := by decide +kernel
  residue_neg := by decide +kernel

/- Every challenge is five. -/
def sevenSha256 (_ : List UInt8) : Vector UInt8 32 := Rpa.scalarBytes 5

def sevenIssuer : BlindIssuer 7 := { x := 3, nonces := [some 2, some 4] }

def sevenSignature : Signature := { rx := Rpa.scalarBytes 1, s := Rpa.scalarBytes 2 }

/- The key is three and the nonce is two, the request is one and the answer is five. -/
theorem both_signs_link :
    verify sevenPoints sevenSha256 (sevenEncode 3).toList sevenSignature (Vector.replicate 32 0) =
      .ok true ∧
    ¬ ∃! pair, pair ∈ linkingPairs sevenPoints sevenSha256 (sevenEncode 3).toList
      (sevenEncode 2).toList (toBytes (1 : ZMod 7)) (toBytes (2 + 1 * 3 : ZMod 7)) true
      (Vector.replicate 32 0) sevenSignature := by
  constructor
  · decide +kernel
  · rintro ⟨pair, -, hUnique⟩
    have hPlus := hUnique (4, 3) (StagedUpdate.exists_ok_of_check (by decide +kernel))
    have hMinus := hUnique (0, 6) (StagedUpdate.exists_ok_of_check (by decide +kernel))
    have hSame := hPlus.trans hMinus.symm
    revert hSame
    decide

/- A request that is answered from the first slot. -/
theorem blind_credentials_seven :
    (∃ sResponse sig,
        (sevenIssuer.sign 0 (toBytes (3 : ZMod 7))).1 = .ok sResponse ∧
          verify sevenPoints sevenSha256 (sevenEncode 3).toList sig (Vector.replicate 32 0) =
            .ok true) ∧
    (linkingPairs sevenPoints sevenSha256 (sevenEncode 3).toList (sevenEncode 2).toList
          (toBytes (1 : ZMod 7)) (toBytes (2 + 1 * 3 : ZMod 7)) true (Vector.replicate 32 0)
          sevenSignature).ncard = 2 := by
  have hNew :
      ∃ request,
      BlindSignatureRequest.newWithBlinding sevenPoints sevenSha256 (sevenEncode 3).toList
            (sevenEncode 2).toList (Vector.replicate 32 0) 1 1 = .ok request ∧
        request.request = toBytes (3 : ZMod 7) :=
    StagedUpdate.exists_ok_of_check (by decide +kernel)
  rcases hNew with ⟨request, hNew, hRequest⟩
  rcases
    (blind_credentials sevenPoints sevenSha256).1 sevenIssuer 0
      (sevenEncode 3) (sevenEncode 2) (Vector.replicate 32 0) 1
      1 request (by decide +kernel) (by decide +kernel) hNew
    with ⟨sResponse, sig, hSign, hValid, -⟩
  rw [hRequest] at hSign
  refine ⟨⟨sResponse, sig, hSign, hValid⟩, ?_⟩
  rcases
    (blind_credentials sevenPoints sevenSha256).2.1 3 2 1
      (sevenEncode 3) (sevenEncode 2) (Vector.replicate 32 0)
      sevenSignature true (by decide +kernel)
      (by decide +kernel) (by decide +kernel) with
    ⟨s', h, -, -, -, hCount⟩
  exact hCount

--- Nonces

open StagedUpdate BlindSchnorr

section Nonces

variable (hmac : List UInt8 → List UInt8 → Vector UInt8 32)

/- "Schnorr+SHA256  " -/
def algo16 : List UInt8 :=
  [0x53, 0x63, 0x68, 0x6e, 0x6f, 0x72, 0x72, 0x2b, 0x53, 0x48, 0x41, 0x32, 0x35, 0x36, 0x20, 0x20]

/- One update of the key and the value of the generator. -/
def reseed (k v : Vector UInt8 32) (data : List UInt8) : Vector UInt8 32 × Vector UInt8 32 :=
  let k := hmac k.toList (v.toList ++ data)
  (k, hmac k.toList v.toList)

/- Values are drawn until one is a scalar other than zero.  The program has no bound on them. -/
def drawNonce (n : Nat) : Nat → Vector UInt8 32 → Vector UInt8 32 → Option (ZMod n)
  | 0, _, _ => none
  | fuel + 1, k, v =>
    let v := hmac k.toList v.toList
    match fromRepr (n := n) v with
    | some nonce =>
      if nonce = 0 then
        let (k, v) := reseed hmac k v [0]
        drawNonce n fuel k v
      else some nonce
    | none =>
      let (k, v) := reseed hmac k v [0]
      drawNonce n fuel k v

def deterministicNonce {n : Nat} (fuel : Nat) (privkey : ZMod n) (msg32 : Vector UInt8 32) :
    Option (ZMod n) :=
  let blob := (toBytes privkey).toList ++ msg32.toList ++ algo16
  let (k, v) := reseed hmac (Vector.replicate 32 0) (Vector.replicate 32 1) (0 :: blob)
  let (k, v) := reseed hmac k v (1 :: blob)
  drawNonce hmac n fuel k v

variable {hmac}

theorem drawNonce_ne_zero {n fuel : Nat} {k v : Vector UInt8 32} {nonce : ZMod n}
    (hDraw : drawNonce hmac n fuel k v = some nonce) : nonce ≠ 0 := by
  induction fuel generalizing k v with
  | zero => cases hDraw
  | succ fuel ih =>
    unfold drawNonce at hDraw
    dsimp only at hDraw
    split at hDraw
    · split at hDraw
      · exact ih hDraw
      · rename_i hNonzero
        rw [← Option.some.inj hDraw]
        exact hNonzero
    · exact ih hDraw

end Nonces

--- Signing

variable {n : Nat} {Point : Type} [AddCommGroup Point] [Module (ZMod n) Point] [DecidableEq Point]

section Sign

variable (curve : Curve n Point) (sha256 : List UInt8 → Vector UInt8 32)
variable (hmac : List UInt8 → List UInt8 → Vector UInt8 32)

def pubkeyCompressed (privkey : ZMod n) : Except (Fault String) (Vector UInt8 33) :=
  compressed curve (privkey • curve.generator)

/- The nonce is negated where its point has no residue. Nothing is returned before a nonce is found.
   -/
def sign (fuel : Nat) (privkey : ZMod n) (msg32 : Vector UInt8 32) :
    Except (Fault String) Signature :=
  match deterministicNonce hmac fuel privkey msg32 with
  | none => .error .panic
  | some k0 => do
      let xy ← affineXy curve (k0 • curve.generator)
      let k := if yIsQuadraticResidue xy.2 then k0 else -k0
      let e ← challenge curve sha256 xy.1 (privkey • curve.generator) msg32
      .ok { rx := xy.1, s := toBytes (k + e * privkey) }

end Sign

variable {curve : Curve n Point} {sha256 : List UInt8 → Vector UInt8 32}
variable {hmac : List UInt8 → List UInt8 → Vector UInt8 32}

/- The point of the nonce, under the sign that gives it a residue, is recovered from the signature.
   -/
theorem sign_verifies {fuel : Nat} {privkey : ZMod n} (hPrivkey : privkey ≠ 0)
    {msg32 : Vector UInt8 32} {sig : Signature}
    (hSign : sign curve sha256 hmac fuel privkey msg32 = .ok sig) :
    verify curve sha256 (curve.encode (privkey • curve.generator)).toList sig msg32 = .ok true := by
  have : NeZero n := ⟨curve.prime.ne_zero⟩
  have hKey := smul_generator_ne_zero curve hPrivkey
  unfold sign at hSign
  split at hSign
  · cases hSign
  rename_i k0 hNonce
  have hPoint := smul_generator_ne_zero curve (drawNonce_ne_zero hNonce)
  rw [bind_of_ok (affineXy_of_ne hPoint), bind_of_ok (challenge_eq hKey _ _)] at hSign
  have hK :
      (if yIsQuadraticResidue
            (curve.affine (k0 • curve.generator)).2 then k0
        else -k0) =
        signOf n (!yIsQuadraticResidue (curve.affine (k0 • curve.generator)).2) * k0 := by
    rw [← ite_neg_eq]
    cases yIsQuadraticResidue (curve.affine (k0 • curve.generator)).2
    · rfl
    · rfl
  rw [hK] at hSign
  have hSigned :=
    signed_point curve hPoint (!yIsQuadraticResidue (curve.affine (k0 • curve.generator)).2)
  generalize signOf n (!yIsQuadraticResidue (curve.affine (k0 • curve.generator)).2) = sign
    at hSign hSigned
  rw [← Except.ok.inj hSign]
  apply (verify_eq_true_iff (curve.parse_encode _ hKey) hKey).mpr
  refine ⟨_, sign • k0 • curve.generator, fromRepr_toBytes curve.order_le _, ?_, hSigned.1, ?_,
    hSigned.2.2⟩
  · unfold recovered
    rw [add_smul, mul_smul, mul_smul, add_sub_cancel_right]
  · rw [hSigned.2.1]
    cases yIsQuadraticResidue (curve.affine (k0 • curve.generator)).2
    · rfl
    · rfl

end OptnWallet.Schnorr
