import OptnWallet.Fusion.Balance
import OptnWallet.Nostr.Allocation.Gate
import OptnWallet.Nostr.CredentialRequests.Built

/-
  Requests for planned contributions.  A plan rounds the fee of a peer up once, and a request
  rounds the fee of each component up, so that a plan is committed to where the one covers the
  others.

  Main declarations:
    * `Nostr.CommitsToPlans`
    * `Nostr.plans_commit_iff`
-/

--- Draws

namespace OptnWallet.Nostr

open BlindSchnorr (blinded)
open P2pOutputPlanOptions (inputs_of_check sumIn_of_check)
open Schnorr (Curve newWithBlinding_eq_ok_iff)
open StagedUpdate (bind_of_ok bind_ne_error mapError_eq_ok_iff)

variable {n : Nat} {Point : Type} [AddCommGroup Point] [Module (ZMod n) Point]
variable {curve : Curve n Point} {hexToBin : String → List UInt8}
variable {sha256 : List UInt8 → Vector UInt8 32} {setup : Pedersen.Setup curve}

/- The issuer announced a key, and a nonce for each slot. -/
structure Announced (hexToBin : String → List UInt8) (curve : Curve n Point) (points : IssuerPoints)
    (slots : Nat) : Prop where
  key : ∃ key, curve.parsePoint (hexToBin points.roundPubkey) = .ok key ∧ key ≠ 0
  nonces :
    ∀ index < slots,
    ∃ r point,
      points.blindNoncePoints[index]? = some r ∧ r ≠ "" ∧ curve.parsePoint (hexToBin r) = .ok point

/- What is drawn does not lead to the identity, where the library panics or asks for other draws. -/
structure Usable (hexToBin : String → List UInt8) (setup : Pedersen.Setup curve)
    (points : IssuerPoints) (index : Nat) (amount : Int) (draws : ComponentDraws n) : Prop where
  commits : amountPoint setup amount draws.nonce ≠ 0
  blinds :
    ∀ r key point,
    points.blindNoncePoints[index]? = some r →
      curve.parsePoint (hexToBin points.roundPubkey) = .ok key →
      curve.parsePoint (hexToBin r) = .ok point →
      blinded curve.generator key point draws.a draws.b ≠ 0

theorem exists_scalar (hOrder : 2 < n) (curve : Curve n Point) (point : Point) :
    ∃ x : ZMod n, x ≠ 0 ∧ point + x • curve.generator ≠ 0 := by
  have hPrime : Fact n.Prime := ⟨curve.prime⟩
  by_cases hOne : point + (1 : ZMod n) • curve.generator = 0
  · refine ⟨1 + 1, ?_, ?_⟩
    · intro hZero
      have hTwo : ((2 : Nat) : ZMod n) = 0 := by
        rw [Nat.cast_ofNat, ← one_add_one_eq_two]
        exact hZero
      rw [ZMod.natCast_eq_zero_iff] at hTwo
      exact absurd (Nat.le_of_dvd (by decide) hTwo) (by omega)
    · rw [add_smul, ← add_assoc, hOne, zero_add, one_smul]
      exact curve.generator_ne_zero
  · exact ⟨1, one_ne_zero, hOne⟩

theorem exists_usable (hOrder : 2 < n) (hexToBin : String → List UInt8)
    (setup : Pedersen.Setup curve) (points : IssuerPoints) (index : Nat) (amount : Int) :
    ∃ draws : ComponentDraws n, Usable hexToBin setup points index amount draws := by
  have hPrime : Fact n.Prime := ⟨curve.prime⟩
  rcases exists_scalar hOrder curve ((amount : ZMod n) • setup.h) with ⟨nonce, hNonce, hCommits⟩
  have hBlind :
      ∃ a : ZMod n,
      a ≠ 0 ∧ ∀ r key point,
          points.blindNoncePoints[index]? = some r →
            curve.parsePoint (hexToBin points.roundPubkey) = .ok key →
            curve.parsePoint (hexToBin r) = .ok point →
            blinded curve.generator key point a 1 ≠ 0 := by
    by_cases hParse :
      ∃ r key point,
      points.blindNoncePoints[index]? = some r ∧
        curve.parsePoint (hexToBin points.roundPubkey) = .ok key ∧
        curve.parsePoint (hexToBin r) = .ok point
    · rcases hParse with ⟨r, key, point, hSlot, hKey, hR⟩
      rcases exists_scalar hOrder curve (point + (1 : ZMod n) • key) with ⟨a, hA, hBlinds⟩
      refine ⟨a, hA, ?_⟩
      intro r' key' point' hSlot' hKey' hR'
      rw [hSlot] at hSlot'
      cases hSlot'
      rw [hKey] at hKey'
      cases hKey'
      rw [hR] at hR'
      cases hR'
      unfold blinded
      rw [add_right_comm]
      exact hBlinds
    · refine ⟨1, one_ne_zero, ?_⟩
      intro r key point hSlot hKey hR
      exact absurd ⟨r, key, point, hSlot, hKey, hR⟩ hParse
  rcases hBlind with ⟨a, hA, hBlinds⟩
  exact
    ⟨{ salt := Vector.replicate 32 0
       nonce
       serial := Vector.replicate 32 0
       a
       b := 1
       nonce_ne_zero := hNonce
       a_ne_zero := hA
       b_ne_zero := one_ne_zero }, hCommits, hBlinds⟩

--- One Component

theorem displayed_length (hReads : ReadsHex hexToBin) (bytes : Vector UInt8 32) :
    (hexToBin (toLowerCase (hexString bytes.toList))).length = 32 := by
  rw [read_of_hexText hReads (hexText_hexString _), Vector.length_toList]

variable [DecidableEq Point] {points : IssuerPoints} {context : FusionCredentialContext}

variable {index : Nat} {r : String}

theorem noncePoint_eq (hSlot : points.blindNoncePoints[index]? = some r) (hNonempty : r ≠ "") :
    noncePoint points index = .ok r := by
  unfold noncePoint
  rw [hSlot]
  exact if_neg hNonempty

/- A component that is built but for what is drawn: its bytes are hashed, and its slot has a nonce.
   -/
structure Ready (hexToBin : String → List UInt8) (curve : Curve n Point)
    (sha256 : List UInt8 → Vector UInt8 32) (points : IssuerPoints) (index : Nat)
    (component : List UInt8) (message : Except String (Vector UInt8 32)) (r : String) : Prop where
  fits : Fits component
  message_eq : message = .ok (sha256 component)
  slot : points.blindNoncePoints[index]? = some r
  point : ∃ point, curve.parsePoint (hexToBin r) = .ok point

variable {component : List UInt8}

theorem exists_salted (hReads : ReadsHex hexToBin) (sha256 : List UInt8 → Vector UInt8 32)
    (hFits : Fits component) (salt : Vector UInt8 32) :
    ∃ salted,
    saltedComponentHashHex hexToBin sha256 (hexString salt.toList) component = .ok salted := by
  unfold saltedComponentHashHex
  dsimp only
  rw [if_neg (not_not.mpr (displayed_length hReads _)),
    if_neg (not_or.mpr ⟨hFits.1, not_lt.mpr hFits.2⟩)]
  exact ⟨_, rfl⟩

variable {slots : Nat}

theorem exists_builtComponent (hReads : ReadsHex hexToBin)
    (hAnnounced : Announced hexToBin curve points slots) {message : Except String (Vector UInt8 32)}
    (hReady : Ready hexToBin curve sha256 points index component message r) {amount : Int}
    (hSafe : isSafeInteger amount = true) {draws : ComponentDraws n}
    (hUsable : Usable hexToBin setup points index amount draws) (opened : OpenedComponent) :
    ∃ row,
    builtComponent hexToBin sha256 setup points index draws amount component message opened r =
      .ok row := by
  rcases hAnnounced.key with ⟨key, hKey, hNonzero⟩
  rcases hReady.point with ⟨point, hR⟩
  have hCommit := pedersenCommit_eq_ok_iff.mpr ⟨hSafe, hUsable.commits, rfl⟩
  have hHash : message.mapError (Fault.error : String → Fault String) = .ok (sha256 component) :=
    mapError_eq_ok_iff.mpr hReady.message_eq
  have hPending :
      ∃ pending,
      PendingRequest.create hexToBin curve sha256 points.roundPubkey r (sha256 component) draws.a
          draws.b = .ok pending := by
    unfold PendingRequest.create
    dsimp only
    rw [bind_of_ok
      ((newWithBlinding_eq_ok_iff hKey hR hNonzero).mpr
        ⟨hUsable.blinds r key point hReady.slot hKey hR, rfl⟩)]
    exact ⟨_, rfl⟩
  rcases hPending with ⟨pending, hPending⟩
  rcases exists_salted hReads sha256 hReady.fits draws.salt with ⟨salted, hSalted⟩
  unfold builtComponent
  rw [bind_of_ok hCommit, bind_of_ok hHash, bind_of_ok hPending]
  dsimp only
  rw [bind_of_ok (mapError_eq_ok_iff.mpr hSalted)]
  exact ⟨_, rfl⟩

theorem pedersenCommit_ne_negative (amount : Int) (nonce : ZMod n) :
    pedersenCommit setup amount nonce ≠ .error (.error negativeExcess) := by
  unfold pedersenCommit
  apply bind_ne_error
  · unfold amountAsI64
    split
    · intro hError
      cases hError
    · intro hError
      have hText := Fault.error.inj (Except.error.inj hError)
      revert hText
      decide
  · intro value _
    apply bind_ne_error
    · unfold Pedersen.encodeUncompressed
      split
      · intro hError
        cases hError
      · intro hError
        cases hError
    · intro encoded _ hError
      cases hError

/- Points that are parsed lead to the identity or to a request. -/
theorem create_ne_negative {roundPubkey : String} {key point : Point}
    (hKey : curve.parsePoint (hexToBin roundPubkey) = .ok key) (hNonzero : key ≠ 0)
    (hR : curve.parsePoint (hexToBin r) = .ok point) (messageHash : Vector UInt8 32)
    (a b : ZMod n) :
    PendingRequest.create hexToBin curve sha256 roundPubkey r messageHash a b ≠
      .error (.error negativeExcess) := by
  unfold PendingRequest.create
  apply bind_ne_error
  · by_cases hZero : blinded curve.generator key point a b = 0
    · have hRetry :
          Schnorr.BlindSignatureRequest.newWithBlinding curve sha256 (hexToBin roundPubkey)
              (hexToBin r) messageHash a b =
            .error (.error "blinded R is the identity — retry") := by
        unfold Schnorr.BlindSignatureRequest.newWithBlinding
        rw [bind_of_ok (mapError_eq_ok_iff.mpr hKey), bind_of_ok (mapError_eq_ok_iff.mpr hR)]
        exact if_pos hZero
      rw [hRetry]
      intro hError
      have hText := Fault.error.inj (Except.error.inj hError)
      revert hText
      decide
    · rw [(newWithBlinding_eq_ok_iff hKey hR hNonzero).mpr ⟨hZero, rfl⟩]
      intro hError
      cases hError
  · intro request _ hError
    cases hError

theorem builtComponent_ne_negative (hReads : ReadsHex hexToBin)
    (hAnnounced : Announced hexToBin curve points slots) {message : Except String (Vector UInt8 32)}
    (hReady : Ready hexToBin curve sha256 points index component message r) (amount : Int)
    (draws : ComponentDraws n) (opened : OpenedComponent) :
    builtComponent hexToBin sha256 setup points index draws amount component message opened r ≠
      .error (.error negativeExcess) := by
  rcases hAnnounced.key with ⟨key, hKey, hNonzero⟩
  rcases hReady.point with ⟨point, hR⟩
  rcases exists_salted hReads sha256 hReady.fits draws.salt with ⟨salted, hSalted⟩
  unfold builtComponent
  apply bind_ne_error (pedersenCommit_ne_negative amount _)
  intro commitment _
  rw [hReady.message_eq]
  apply bind_ne_error (create_ne_negative hKey hNonzero hR (sha256 component) draws.a draws.b)
  intro pending _
  dsimp only
  rw [hSalted]
  intro hError
  cases hError

/- A coin of the wallet under a compressed key. -/
structure WellFormedInput (input : FusionInputRef) : Prop where
  txid : ∃ bytes, HexText input.prevTxid bytes ∧ bytes.length = 32
  index_nonneg : 0 ≤ input.prevIndex
  index_lt : input.prevIndex < 2 ^ 32
  value_safe : isSafeInteger input.value = true
  value_nonneg : 0 ≤ input.value
  pubkey : isCompressedPubkey input.pubkey = true

structure WellFormedOutput (output : FusionOutputRef) : Prop where
  script : ∃ bytes, HexText output.script bytes ∧ bytes.length = 25
  value_safe : isSafeInteger output.value = true
  value_nonneg : 0 ≤ output.value

/- A digit in the small case has one unit. -/
theorem lower_toNat_lt {c : Char} (hHex : isHexChar c = true) : c.toLower.toNat < 0x10000 := by
  have hAll : ∀ code < 128, (Char.ofNat code).toLower.toNat < 0x10000 := by decide
  have hHere := hAll c.toNat (toNat_lt_of_isHexChar hHex)
  rw [Char.ofNat_toNat] at hHere
  exact hHere

/- Digits are one unit each. -/
theorem utf16Length_toLowerCase {text : String} (hDigits : ∀ c ∈ text.toList, isHexChar c = true) :
    utf16Length (toLowerCase text) = text.length := by
  have hOnes :
      (toLowerCase text).toList.map (fun c => if c.toNat < 0x10000 then 1 else 2) =
        List.replicate text.length 1 := by
    unfold toLowerCase
    rw [List.eq_replicate_iff, String.toList_ofList, List.map_map, List.length_map,
      String.length_toList]
    refine ⟨rfl, ?_⟩
    intro units hMem
    rcases List.mem_map.mp hMem with ⟨c, hChar, rfl⟩
    exact if_pos (lower_toNat_lt (hDigits c hChar))
  unfold utf16Length
  rw [hOnes, List.sum_replicate, smul_eq_mul, mul_one]

theorem length_of_compressed (hReads : ReadsHex hexToBin) {pubkey : String}
    (hPubkey : isCompressedPubkey pubkey = true) : (hexToBin (toLowerCase pubkey)).length = 33 := by
  unfold isCompressedPubkey at hPubkey
  rw [decide_eq_true_eq, List.all_eq_true] at hPubkey
  rcases hPubkey with ⟨-, hLength, hDigits⟩
  rw [hReads.length, utf16Length_toLowerCase hDigits, hLength]

variable {input : FusionInputRef}

theorem acceptsInput_of_wellFormed (hReads : ReadsHex hexToBin)
    (hInput : WellFormedInput input) (saltCommitment : Vector UInt8 32) :
    AcceptsInput hexToBin
      { prevTxidDisplayHex := input.prevTxid
        prevIndex := input.prevIndex
        pubkeyHex := input.pubkey
        amount := input.value
        saltCommitmentHex := hexString saltCommitment.toList } := by
  rcases hInput.txid with ⟨txid, hTxid, hTxidLength⟩
  have hPubkey := length_of_compressed hReads hInput.pubkey
  have hLow := hInput.index_nonneg
  have hHigh := hInput.index_lt
  constructor
  · exact displayed_length hReads _
  · dsimp only
    omega
  · dsimp only
    omega
  · unfold isSafeInteger
    rw [decide_eq_true_eq]
    dsimp only
    omega
  · exact hInput.index_nonneg
  · exact hInput.value_safe
  · exact hInput.value_nonneg
  · dsimp only
    rw [read_of_hexText hReads hTxid, hTxidLength]

variable {output : FusionOutputRef}

theorem acceptsOutput_of_wellFormed (hReads : ReadsHex hexToBin)
    (hOutput : WellFormedOutput output) (saltCommitment : Vector UInt8 32) :
    AcceptsOutput hexToBin
      { scriptHex := output.script
        amount := output.value
        saltCommitmentHex := hexString saltCommitment.toList } := by
  rcases hOutput.script with ⟨script, hScript, hScriptLength⟩
  have hRead := read_of_hexText hReads hScript
  constructor
  · exact displayed_length hReads _
  · dsimp only
    rw [hRead, hScriptLength]
    decide
  · dsimp only
    rw [hRead, hScriptLength]
    decide
  · exact hOutput.value_safe
  · exact hOutput.value_nonneg

section

variable (hReads : ReadsHex hexToBin) (hAnnounced : Announced hexToBin curve points slots)
variable (hIndex : index < slots)
include hReads hAnnounced hIndex

theorem builtInput_eq (hInput : WellFormedInput input) (feerate : Nat) (draws : ComponentDraws n) :
    ∃ component message r,
    Ready hexToBin curve sha256 points index component message r ∧
      builtInput hexToBin sha256 setup points feerate index draws input =
        builtComponent hexToBin sha256 setup points index draws (inputAmount feerate input)
          component message (.input (inputKey input)) r := by
  rcases hAnnounced.nonces index hIndex with ⟨r, point, hSlot, hNonempty, hR⟩
  have hEncode :=
    encodeInputComponent_of_accepts hexToBin
      (acceptsInput_of_wellFormed hReads hInput (sha256 draws.salt.toList))
  have hFits := encodeInputComponent_fits hexToBin hEncode
  refine ⟨_,
    inputCredentialMessageHash hexToBin sha256 input (hexString (sha256 draws.salt.toList).toList),
    r, ⟨hFits, ?_, hSlot, point, hR⟩, ?_⟩
  · exact (bind_of_ok hEncode _).trans (componentBlindMessageHash_of_fits sha256 hFits)
  · unfold builtInput
    dsimp only
    rw [bind_of_ok (mapError_eq_ok_iff.mpr (noncePoint_eq hSlot hNonempty)),
      bind_of_ok (mapError_eq_ok_iff.mpr hEncode)]

theorem builtOutput_eq (hOutput : WellFormedOutput output) (feerate : Nat)
    (draws : ComponentDraws n) :
    ∃ component message r,
    Ready hexToBin curve sha256 points index component message r ∧
      builtOutput hexToBin sha256 setup points context feerate index draws output =
        builtComponent hexToBin sha256 setup points index draws (outputAmount feerate output)
          component message (.output (hexString draws.serial.toList)) r := by
  rcases hAnnounced.nonces index hIndex with ⟨r, point, hSlot, hNonempty, hR⟩
  have hEncode :=
    encodeOutputComponent_of_accepts hexToBin
      (acceptsOutput_of_wellFormed hReads hOutput (sha256 draws.salt.toList))
  have hFits := encodeOutputComponent_fits hexToBin hEncode
  refine ⟨_,
    outputCredentialMessageHash hexToBin sha256 context output (hexString draws.serial.toList)
      (hexString (sha256 draws.salt.toList).toList), r, ⟨hFits, ?_, hSlot, point, hR⟩, ?_⟩
  · exact (bind_of_ok hEncode _).trans (componentBlindMessageHash_of_fits sha256 hFits)
  · unfold builtOutput
    dsimp only
    rw [bind_of_ok (mapError_eq_ok_iff.mpr (noncePoint_eq hSlot hNonempty)),
      bind_of_ok (mapError_eq_ok_iff.mpr hEncode)]

end

--- All Components

/- Every component has draws that can be used. -/
def UsableDraws (hexToBin : String → List UInt8) (setup : Pedersen.Setup curve)
    (points : IssuerPoints) (feerate base : Nat) (contribution : PeerContribution)
    (draws : Nat → ComponentDraws n) : Prop :=
  ∀ (index : Nat) amount,
    (amountsOf feerate contribution)[index]? = some amount →
      Usable hexToBin setup points (base + index) amount (draws index)

omit [DecidableEq Point] in
theorem exists_usableDraws (hOrder : 2 < n) (hexToBin : String → List UInt8)
    (setup : Pedersen.Setup curve) (points : IssuerPoints) (feerate base : Nat)
    (contribution : PeerContribution) :
    ∃ draws, UsableDraws hexToBin setup points feerate base contribution draws := by
  have hEach (index : Nat) :=
    exists_usable hOrder hexToBin setup points (base + index)
      (((amountsOf feerate contribution)[index]?).getD 0)
  choose draws hDraws using hEach
  refine ⟨draws, ?_⟩
  intro index amount hAmount
  have hHere := hDraws index
  rw [hAmount] at hHere
  exact hHere

theorem amount_of_input {contribution : PeerContribution} {entry : FusionInputRef × Nat}
    (hEntry : entry ∈ contribution.inputs.zipIdx) (feerate : Nat) :
    entry.1 ∈ contribution.inputs ∧
    entry.2 < contribution.inputs.length ∧
    (amountsOf feerate contribution)[entry.2]? = some (inputAmount feerate entry.1) := by
  rw [List.mem_zipIdx_iff_getElem?] at hEntry
  have hLt := (List.getElem?_eq_some_iff.mp hEntry).1
  refine ⟨List.mem_of_getElem? hEntry, hLt, ?_⟩
  unfold amountsOf
  rw [List.getElem?_append_left (by rw [List.length_map]; exact hLt), List.getElem?_map, hEntry]
  rfl

theorem amount_of_output {contribution : PeerContribution} {entry : FusionOutputRef × Nat}
    (hEntry : entry ∈ contribution.outputs.zipIdx) (feerate : Nat) :
    entry.1 ∈ contribution.outputs ∧
    entry.2 < contribution.outputs.length ∧
    (amountsOf feerate contribution)[contribution.inputs.length + entry.2]? =
      some (outputAmount feerate entry.1) := by
  rw [List.mem_zipIdx_iff_getElem?] at hEntry
  have hLt := (List.getElem?_eq_some_iff.mp hEntry).1
  refine ⟨List.mem_of_getElem? hEntry, hLt, ?_⟩
  unfold amountsOf
  rw [List.getElem?_append_right (by rw [List.length_map]; omega), List.length_map,
    Nat.add_sub_cancel_left, List.getElem?_map, hEntry]
  rfl

/- A contribution that only the draws can keep from being built. -/
structure Prepared (hexToBin : String → List UInt8) (curve : Curve n Point) (points : IssuerPoints)
    (base slots : Nat) (contribution : PeerContribution) : Prop where
  reads : ReadsHex hexToBin
  announced : Announced hexToBin curve points slots
  slots : base + (contribution.inputs.length + contribution.outputs.length) ≤ slots
  inputs : ∀ input ∈ contribution.inputs, WellFormedInput input
  outputs : ∀ output ∈ contribution.outputs, WellFormedOutput output

section Prepared

variable {base slots : Nat} {contribution : PeerContribution}
variable (hPrepared : Prepared hexToBin curve points base slots contribution)

include hPrepared

theorem exists_builtRows {feerate : Nat}
    (hSafe : ∀ amount ∈ amountsOf feerate contribution, isSafeInteger amount = true)
    {draws : Nat → ComponentDraws n}
    (hUsable : UsableDraws hexToBin setup points feerate base contribution draws) :
    ∃ rows,
    builtRows hexToBin sha256 setup points context feerate base draws contribution = .ok rows := by
  have hSlots := hPrepared.slots
  have hIns :
      ∃ rows,
        contribution.inputs.zipIdx.mapM
            (fun entry => builtInput hexToBin sha256 setup points feerate
                (base + entry.2) (draws entry.2) entry.1) =
          .ok rows := by
    apply StagedUpdate.exists_mapM
    intro entry hEntry
    rcases amount_of_input hEntry feerate with ⟨hMem, hLt, hAmount⟩
    have hIndex : base + entry.2 < slots := by omega
    rcases builtInput_eq hPrepared.reads hPrepared.announced hIndex (hPrepared.inputs _ hMem)
      feerate (draws entry.2) with ⟨component, message, r, hReady, hBuilt⟩
    rw [hBuilt]
    exact exists_builtComponent hPrepared.reads hPrepared.announced hReady
      (hSafe _ (List.mem_of_getElem? hAmount)) (hUsable _ _ hAmount) _
  have hOuts :
      ∃ rows,
        contribution.outputs.zipIdx.mapM
            (fun entry => builtOutput hexToBin sha256 setup points context feerate
                  (base + contribution.inputs.length + entry.2)
                  (draws (contribution.inputs.length + entry.2)) entry.1) =
          .ok rows := by
    apply StagedUpdate.exists_mapM
    intro entry hEntry
    rcases amount_of_output hEntry feerate with ⟨hMem, hLt, hAmount⟩
    have hIndex : base + contribution.inputs.length + entry.2 < slots := by omega
    rcases builtOutput_eq hPrepared.reads hPrepared.announced hIndex (hPrepared.outputs _ hMem)
      feerate (draws (contribution.inputs.length + entry.2)) with
      ⟨component, message, r, hReady, hBuilt⟩
    have hHere := hUsable _ _ hAmount
    rw [← Nat.add_assoc] at hHere
    rw [hBuilt]
    exact exists_builtComponent hPrepared.reads hPrepared.announced hReady
      (hSafe _ (List.mem_of_getElem? hAmount)) hHere _
  rcases hIns with ⟨inputs, hIns⟩
  rcases hOuts with ⟨outputs, hOuts⟩
  unfold builtRows
  rw [bind_of_ok hIns, bind_of_ok hOuts]
  exact ⟨_, rfl⟩

theorem builtRows_ne_negative (feerate : Nat) (draws : Nat → ComponentDraws n) :
    builtRows hexToBin sha256 setup points context feerate base draws contribution ≠
      .error (.error negativeExcess) := by
  have hSlots := hPrepared.slots
  unfold builtRows
  apply bind_ne_error
  · apply StagedUpdate.mapM_ne_error
    intro entry hEntry
    rcases amount_of_input hEntry feerate with ⟨hMem, hLt, -⟩
    have hIndex : base + entry.2 < slots := by omega
    rcases builtInput_eq hPrepared.reads hPrepared.announced hIndex (hPrepared.inputs _ hMem)
      feerate (draws entry.2) with ⟨component, message, r, hReady, hBuilt⟩
    rw [hBuilt]
    exact builtComponent_ne_negative hPrepared.reads hPrepared.announced hReady _ _ _
  · intro inputs _
    apply bind_ne_error
    · apply StagedUpdate.mapM_ne_error
      intro entry hEntry
      rcases amount_of_output hEntry feerate with ⟨hMem, hLt, -⟩
      have hIndex : base + contribution.inputs.length + entry.2 < slots := by omega
      rcases builtOutput_eq hPrepared.reads hPrepared.announced hIndex (hPrepared.outputs _ hMem)
        feerate (draws (contribution.inputs.length + entry.2)) with
        ⟨component, message, r, hReady, hBuilt⟩
      rw [hBuilt]
      exact builtComponent_ne_negative hPrepared.reads hPrepared.announced hReady _ _ _
    · intro outputs _ hError
      cases hError

end Prepared

--- Amounts of a Plan

/- The fees of the components, each of them rounded up. -/
def componentFees (feerate inputCount outputCount : Nat) : Int :=
  inputCount * componentFeeSats 141 feerate + outputCount * componentFeeSats 34 feerate

theorem inputAmount_eq (hKey : input.pubkey.length = 66) (feerate : Nat) :
    inputAmount feerate input = input.value - componentFeeSats 141 feerate := by
  unfold inputAmount
  rw [hKey]
  norm_num

theorem outputAmount_eq (hScript : output.script.length = 50) (feerate : Nat) :
    outputAmount feerate output = -(output.value + componentFeeSats 34 feerate) := by
  unfold outputAmount
  rw [hScript]
  norm_num

theorem sum_inputAmount {inputs : List FusionInputRef}
    (hKeys : ∀ input ∈ inputs, input.pubkey.length = 66) (feerate : Nat) :
    (inputs.map (inputAmount feerate)).sum =
      (inputs.map FusionInputRef.value).sum - inputs.length * componentFeeSats 141 feerate := by
  induction inputs with
  | nil => simp
  | cons input inputs ih =>
    rw [List.forall_mem_cons] at hKeys
    rw [List.map_cons, List.sum_cons, ih hKeys.2, List.map_cons, List.sum_cons, List.length_cons,
      inputAmount_eq hKeys.1]
    push_cast
    ring

theorem sum_outputAmount {outputs : List FusionOutputRef}
    (hScripts : ∀ output ∈ outputs, output.script.length = 50) (feerate : Nat) :
    (outputs.map (outputAmount feerate)).sum =
      -(outputs.map FusionOutputRef.value).sum - outputs.length * componentFeeSats 34 feerate := by
  induction outputs with
  | nil => simp
  | cons output outputs ih =>
    rw [List.forall_mem_cons] at hScripts
    rw [List.map_cons, List.sum_cons, ih hScripts.2, List.map_cons, List.sum_cons, List.length_cons,
      outputAmount_eq hScripts.1]
    push_cast
    ring

/- One component is no more than the share of the peer. -/
theorem componentFeeSats_le_share {options : P2pOutputPlanOptions} (hChecked : options.Checked)
    {size : ℚ} (hSize : size ≤ 141) (count : Nat) :
    componentFeeSats size options.feerate ≤ options.share count := by
  have hInputs : (1 : ℚ) ≤ options.inputs.length := Nat.one_le_cast.mpr hChecked.one_le_inputs
  have hCount : (0 : ℚ) ≤ count := Nat.cast_nonneg count
  have hOverhead : (0 : ℚ) ≤ txOverheadBytes / options.participantCount := by
    unfold txOverheadBytes
    positivity
  have hBytes : size ≤ localBytes options.inputs count options.participantCount := by
    unfold localBytes p2pkhOutputBytes
    rw [sum_inputSize hChecked.keys]
    push_cast
    linarith
  unfold componentFeeSats P2pOutputPlanOptions.share localFeeShare
  gcongr

theorem componentFeeSats_nonneg {size : ℚ} (hSize : 0 ≤ size) (feerate : Nat) :
    0 ≤ componentFeeSats size feerate := by
  unfold componentFeeSats
  apply Int.ceil_nonneg
  positivity

--- Plans

/- The coins and the scripts of the wallet. -/
structure Peer.Spendable (peer : Peer) : Prop where
  txids : ∀ input ∈ peer.inputs, ∃ bytes, HexText input.prevTxid bytes ∧ bytes.length = 32
  indices : ∀ input ∈ peer.inputs, 0 ≤ input.prevIndex ∧ input.prevIndex < 2 ^ 32
  scripts : ∀ index, ∃ bytes, HexText (peer.scripts index) bytes ∧ bytes.length = 25

section Plans

variable {peer : Peer} {participantCount feerate : Nat} {randomUnit : Nat → ℚ}
variable {plan : P2pOutputPlan}

theorem value_of_mem_outputs {output : FusionOutputRef}
    (hMem : output ∈ (peer.contribution plan).outputs) :
    output.value ∈ plan.values ∧ ∃ index, output.script = peer.scripts index := by
  unfold Peer.contribution at hMem
  rcases List.mem_map.mp hMem with ⟨entry, hEntry, rfl⟩
  refine ⟨?_, entry.2, rfl⟩
  rw [List.mem_zipIdx_iff_getElem?] at hEntry
  exact List.mem_of_getElem? hEntry

theorem inputs_of_plan (hPeer : peer.Spendable)
    (hPlan : planP2pOutputValues (peer.options participantCount feerate) randomUnit = .ok plan) :
    ∀ input ∈ peer.inputs, WellFormedInput input := by
  intro input hMem
  rcases inputs_of_check (check_of_plan hPlan) input hMem with ⟨hSafe, hPos, hPubkey⟩
  constructor
  · exact hPeer.txids input hMem
  · exact (hPeer.indices input hMem).1
  · exact (hPeer.indices input hMem).2
  · exact hSafe
  · exact hPos.le
  · exact hPubkey

/- A value and the share of the peer are part of what the inputs bring. -/
theorem value_le_of_plan
    (hPlan : planP2pOutputValues (peer.options participantCount feerate) randomUnit = .ok plan)
    {value : Int} (hMem : value ∈ plan.values) :
    0 ≤ value ∧
    value + (peer.options participantCount feerate).share plan.values.length ≤
      (peer.options participantCount feerate).sumIn := by
  have hPlanned := planP2pOutputValues_spec hPlan
  have hMinimum := hPlanned.checked.minimum
  have hNonneg : ∀ other ∈ plan.values, 0 ≤ other := by
    intro other hOther
    exact le_trans (by omega) (hPlanned.least other hOther)
  have hSum := List.single_le_sum hNonneg value hMem
  have hTotal := hPlanned.total
  have hShare := hPlanned.share_le
  exact ⟨hNonneg value hMem, by omega⟩

variable (hPeer : peer.Spendable)
include hPeer

theorem outputs_of_plan
    (hPlan : planP2pOutputValues (peer.options participantCount feerate) randomUnit = .ok plan) :
    ∀ output ∈ (peer.contribution plan).outputs, WellFormedOutput output := by
  intro output hMem
  rcases value_of_mem_outputs hMem with ⟨hValue, index, hScript⟩
  rcases value_le_of_plan hPlan hValue with ⟨hNonneg, hLe⟩
  have hShare :=
    componentFeeSats_le_share (planP2pOutputValues_spec hPlan).checked (le_refl 141)
      plan.values.length
  have hFee : 0 ≤ componentFeeSats 141 feerate := componentFeeSats_nonneg (by norm_num) feerate
  have hSum := natAbs_lt_of_isSafeInteger (sumIn_of_check (check_of_plan hPlan))
  constructor
  · rw [hScript]
    exact hPeer.scripts index
  · unfold isSafeInteger
    rw [decide_eq_true_eq]
    change componentFeeSats 141 feerate ≤ _ at hShare
    omega
  · exact hNonneg

theorem lengths_of_plan :
    ∀ output ∈ (peer.contribution plan).outputs, output.script.length = 50 := by
  intro output hMem
  rcases value_of_mem_outputs hMem with ⟨-, index, hScript⟩
  rcases hPeer.scripts index with ⟨bytes, hText, hLength⟩
  rw [hScript, hText.length, hLength]

/- What is left of a plan is its fee less the fees of the components. -/
theorem excess_of_plan
    (hPlan : planP2pOutputValues (peer.options participantCount feerate) randomUnit = .ok plan) :
    (amountsOf feerate (peer.contribution plan)).sum =
      plan.feeShare - componentFees feerate peer.inputs.length plan.values.length := by
  have hPlanned := planP2pOutputValues_spec hPlan
  have hTotal := hPlanned.total
  have hInputs := sum_inputAmount hPlanned.checked.keys feerate
  have hLengths : ∀ output ∈ (peer.contribution plan).outputs, output.script.length = 50 :=
    lengths_of_plan hPeer
  have hOutputs := sum_outputAmount hLengths feerate
  rcases contribution_outputs peer plan with ⟨hLength, hValues⟩
  rw [hLength, hValues] at hOutputs
  unfold amountsOf
  rw [List.sum_append, hOutputs]
  change (peer.inputs.map (inputAmount feerate)).sum =
    (peer.options participantCount feerate).sumIn -
      peer.inputs.length * componentFeeSats 141 feerate at hInputs
  change (peer.inputs.map (inputAmount feerate)).sum + _ = _
  unfold componentFees
  rw [hInputs]
  omega

theorem amounts_safe_of_plan
    (hPlan : planP2pOutputValues (peer.options participantCount feerate) randomUnit = .ok plan) :
    ∀ amount ∈ amountsOf feerate (peer.contribution plan), isSafeInteger amount = true := by
  have hPlanned := planP2pOutputValues_spec hPlan
  have hChecked := hPlanned.checked
  have hSum := natAbs_lt_of_isSafeInteger (sumIn_of_check (check_of_plan hPlan))
  have hFunded := hPlanned.affordable.funded
  have hMinimum := hChecked.minimum
  have hLeast : 0 ≤ (peer.options participantCount feerate).minimum * (plan.values.length : Int) :=
    mul_nonneg (by omega) (Int.natCast_nonneg _)
  have hInputFee :
      componentFeeSats 141 feerate ≤
        (peer.options participantCount feerate).share plan.values.length :=
    componentFeeSats_le_share hChecked (le_refl 141) _
  have hOutputFee :
      componentFeeSats 34 feerate ≤
        (peer.options participantCount feerate).share plan.values.length :=
    componentFeeSats_le_share hChecked (by norm_num) _
  have hInputPos : 0 ≤ componentFeeSats 141 feerate := componentFeeSats_nonneg (by norm_num) feerate
  have hOutputPos : 0 ≤ componentFeeSats 34 feerate := componentFeeSats_nonneg (by norm_num) feerate
  intro amount hMem
  unfold isSafeInteger
  rw [decide_eq_true_eq]
  rcases List.mem_append.mp hMem with hIn | hOut
  · rcases List.mem_map.mp hIn with ⟨input, hInput, rfl⟩
    have hValue := hChecked.values input hInput
    have hAmount := inputAmount_eq (hChecked.keys input hInput) feerate
    omega
  · rcases List.mem_map.mp hOut with ⟨output, hOutput, rfl⟩
    have hValue := value_le_of_plan hPlan (value_of_mem_outputs hOutput).1
    have hAmount := outputAmount_eq (lengths_of_plan hPeer output hOutput) feerate
    omega

end Plans

--- Requests for Plans

/-
  Whatever is drawn, a plan of the peer is never refused for a negative excess fee.  A request for
  it is built, and the check of the coordinator accepts the commitments unless the nonces cancel
  out.
-/
structure CommitsToPlans (hexToBin : String → List UInt8) (sha256 : List UInt8 → Vector UInt8 32)
    (setup : Pedersen.Setup curve) (points : IssuerPoints) (context : FusionCredentialContext)
    (participants : List String) (myPubkey : String) (feerate : Nat) (peer : Peer) : Prop where
  neverNegative :
    ∀ randomUnit plan draws,
    planP2pOutputValues (peer.options participants.length feerate) randomUnit = .ok plan →
      buildComponentCredentialRequests hexToBin sha256 setup (peer.contribution plan) participants
          myPubkey points context feerate draws ≠ .error (.error negativeExcess)
  accepted :
    ∀ randomUnit plan draws base,
    planP2pOutputValues (peer.options participants.length feerate) randomUnit = .ok plan →
      peerCredentialSlotBase participants myPubkey = .ok base →
      UsableDraws hexToBin setup points feerate base (peer.contribution plan) draws →
      ∃ built,
        buildComponentCredentialRequests hexToBin sha256 setup (peer.contribution plan) participants
              myPubkey points context feerate draws = .ok built ∧
          (pedersenBalanceHolds hexToBin setup built.amountCommitments built.excessFee
                built.pedersenTotalNonce = true ↔
            (noncesOf draws (peer.inputs.length + plan.values.length)).sum ≠ 0)

/- Whatever number of outputs the peer can choose, there are slots for all components, and its share
   covers the fees of the components. -/
def FeesCovered (participantCount feerate : Nat) (peer : Peer) : Prop :=
  ∀ count,
    CanPlan participantCount feerate peer count →
      peer.inputs.length + count ≤ credentialSlotsPerPeer ∧
        componentFees feerate peer.inputs.length count ≤
          (peer.options participantCount feerate).share count

theorem peerCredentialSlotBase_of_mem {participants : List String} {myPubkey : String}
    (hMe : myPubkey ∈ participants) :
    ∃ base,
    peerCredentialSlotBase participants myPubkey = .ok base ∧
      base + credentialSlotsPerPeer ≤ participants.length * credentialSlotsPerPeer := by
  have hSorted : myPubkey ∈ participants.insertionSort (· ≤ ·) :=
    List.mem_insertionSort (· ≤ ·) |>.mpr hMe
  have hLt := List.idxOf_lt_length_of_mem hSorted
  rw [List.length_insertionSort] at hLt
  unfold peerCredentialSlotBase
  dsimp only
  rw [if_pos hSorted]
  refine ⟨_, rfl, ?_⟩
  rw [← Nat.succ_mul]
  exact Nat.mul_le_mul_right _ hLt

section Requests

variable {participants : List String} {myPubkey : String} {feerate : Nat} {peer : Peer}
variable {randomUnit : Nat → ℚ} {plan : P2pOutputPlan} {base : Nat}

theorem build_eq {contribution : PeerContribution}
    (hBase : peerCredentialSlotBase participants myPubkey = .ok base)
    (hCount : contribution.inputs.length + contribution.outputs.length ≤ credentialSlotsPerPeer)
    (draws : Nat → ComponentDraws n) :
    buildComponentCredentialRequests hexToBin sha256 setup
        contribution participants myPubkey points context
        feerate draws =
      builtRows hexToBin sha256 setup points context feerate base draws contribution >>=
        fun rows =>
          if ((rows.1 ++ rows.2).map
                BuiltComponent.contributionAmount).sum < 0 then
            .error (.error negativeExcess)
          else .ok (requestsOf rows.1 rows.2) := by
  unfold buildComponentCredentialRequests
  rw [bind_of_ok (mapError_eq_ok_iff.mpr hBase)]
  dsimp only
  rw [if_neg (not_lt.mpr hCount)]

variable (hReads : ReadsHex hexToBin)
include hReads

omit [DecidableEq Point] in
theorem prepared_of_plan {slots : Nat} (hAnnounced : Announced hexToBin curve points slots)
    (hPeer : peer.Spendable)
    (hPlan : planP2pOutputValues (peer.options participants.length feerate) randomUnit = .ok plan)
    (hBase : base + credentialSlotsPerPeer ≤ slots)
    (hCount : peer.inputs.length + plan.values.length ≤ credentialSlotsPerPeer) :
    Prepared hexToBin curve points base slots (peer.contribution plan) := by
  have hLength := (contribution_outputs peer plan).1
  constructor
  · exact hReads
  · exact hAnnounced
  · rw [hLength]
    change base + (peer.inputs.length + plan.values.length) ≤ _
    omega
  · exact inputs_of_plan hPeer hPlan
  · exact outputs_of_plan hPeer hPlan

/- What is built of a plan, and when it is refused. -/
theorem build_of_plan {slots : Nat}
    (hAnnounced : Announced hexToBin curve points slots) (hPeer : peer.Spendable)
    (hPlan : planP2pOutputValues (peer.options participants.length feerate) randomUnit = .ok plan)
    (hBase : peerCredentialSlotBase participants myPubkey = .ok base)
    (hSlots : base + credentialSlotsPerPeer ≤ slots)
    (hCount : peer.inputs.length + plan.values.length ≤ credentialSlotsPerPeer)
    {draws : Nat → ComponentDraws n}
    (hUsable : UsableDraws hexToBin setup points feerate base (peer.contribution plan) draws) :
    ∃ rows : List (BuiltComponent n) × List (BuiltComponent n),
      buildComponentCredentialRequests hexToBin sha256 setup
            (peer.contribution plan) participants myPubkey
            points context feerate draws =
          (if plan.feeShare < componentFees feerate peer.inputs.length
                  plan.values.length then
            .error (.error negativeExcess)
          else .ok (requestsOf rows.1 rows.2)) ∧
        BuiltRows setup feerate draws (peer.contribution plan) (rows.1 ++ rows.2) := by
  have hLength := (contribution_outputs peer plan).1
  have hPrepared := prepared_of_plan hReads hAnnounced hPeer hPlan hSlots hCount
  have hRows :
      ∃ rows,
      builtRows hexToBin sha256 setup points context feerate base draws (peer.contribution plan) =
        .ok rows :=
    exists_builtRows hPrepared (amounts_safe_of_plan hPeer hPlan) hUsable
  rcases hRows with ⟨rows, hRows⟩
  have hBuilt := builtRows_spec hRows
  refine ⟨rows, ?_, hBuilt⟩
  rw [build_eq hBase (by rw [hLength]; exact hCount) draws, bind_of_ok hRows, hBuilt.amounts,
    excess_of_plan hPeer hPlan]
  simp only [sub_neg]

/- The commitments of a plan whose fee covers those of its components. -/
theorem balance_of_plan (hPeer : peer.Spendable)
    (hPlan : planP2pOutputValues (peer.options participants.length feerate) randomUnit = .ok plan)
    (hCovered : componentFees feerate peer.inputs.length plan.values.length ≤ plan.feeShare)
    {draws : Nat → ComponentDraws n} {rows : List (BuiltComponent n) × List (BuiltComponent n)}
    (hBuilt : BuiltRows setup feerate draws (peer.contribution plan) (rows.1 ++ rows.2)) :
    pedersenBalanceHolds hexToBin setup (requestsOf rows.1 rows.2).amountCommitments
        (requestsOf rows.1 rows.2).excessFee (requestsOf rows.1 rows.2).pedersenTotalNonce = true ↔
    (noncesOf draws (peer.inputs.length + plan.values.length)).sum ≠ 0 := by
  have hPlanned := planP2pOutputValues_spec hPlan
  have hLength := (contribution_outputs peer plan).1
  have hTotal := hPlanned.total
  have hExcess := excess_of_plan hPeer hPlan
  have hAmounts := hBuilt.amounts
  have hNonces := hBuilt.nonces
  have hSum := natAbs_lt_of_isSafeInteger (sumIn_of_check (check_of_plan hPlan))
  have hValues : 0 ≤ plan.values.sum := by
    apply List.sum_nonneg
    intro value hMem
    exact (value_le_of_plan hPlan hMem).1
  have hFees : 0 ≤ componentFees feerate peer.inputs.length plan.values.length := by
    have hInput : 0 ≤ componentFeeSats 141 feerate := componentFeeSats_nonneg (by norm_num) feerate
    have hOutput : 0 ≤ componentFeeSats 34 feerate := componentFeeSats_nonneg (by norm_num) feerate
    unfold componentFees
    positivity
  have hSafe :
      isSafeInteger ((rows.1 ++ rows.2).map BuiltComponent.contributionAmount).sum = true := by
    rw [hAmounts, hExcess]
    unfold isSafeInteger
    rw [decide_eq_true_eq]
    omega
  have hNonempty : rows.1 ++ rows.2 ≠ [] := by
    intro hNil
    have hInputs := hPlanned.checked.one_le_inputs
    rw [hNil, List.map_nil] at hAmounts
    have hNone := congrArg List.length hAmounts
    unfold amountsOf at hNone
    rw [List.length_append, List.length_map] at hNone
    change 0 = peer.inputs.length + _ at hNone
    change 1 ≤ peer.inputs.length at hInputs
    omega
  have hHolds := pedersenBalanceHolds_iff hReads hBuilt.committed hNonempty hSafe
  rw [hNonces, hLength] at hHolds
  unfold requestsOf
  dsimp only
  rw [hNonces, hLength]
  exact hHolds

end Requests

--- Fees That Are Covered

section Covered

variable {participants : List String} {myPubkey : String} {feerate : Nat} {peer : Peer}
variable (hReads : ReadsHex hexToBin)
variable
  (hAnnounced : Announced hexToBin curve points (participants.length * credentialSlotsPerPeer))
variable (hMe : myPubkey ∈ participants) (hPeer : peer.Spendable)

include hReads hAnnounced hMe hPeer

/- Each number of outputs that the peer can choose is planned for without noise, and draws that can
   be used exist. -/
theorem covered_of_commits (hOrder : 2 < n)
    (hCommits :
        CommitsToPlans hexToBin sha256 setup points context participants myPubkey feerate peer) :
    FeesCovered participants.length feerate peer := by
  intro count hCan
  rcases exists_plan hCan.1 hCan.2 with ⟨plan, hPlan, hLength, hShare⟩
  rcases peerCredentialSlotBase_of_mem hMe with ⟨base, hBase, hSlots⟩
  rcases exists_usableDraws hOrder hexToBin setup points feerate base (peer.contribution plan) with
    ⟨draws, hUsable⟩
  have hCount : peer.inputs.length + count ≤ credentialSlotsPerPeer := by
    by_contra hMany
    rcases hCommits.accepted _ plan draws base hPlan hBase hUsable with ⟨built, hBuilt, -⟩
    unfold buildComponentCredentialRequests at hBuilt
    rw [bind_of_ok (mapError_eq_ok_iff.mpr hBase)] at hBuilt
    dsimp only at hBuilt
    have hTooMany : credentialSlotsPerPeer < (peer.contribution plan).inputs.length + count :=
      not_le.mp hMany
    rw [(contribution_outputs peer plan).1, hLength, if_pos hTooMany] at hBuilt
    cases hBuilt
  refine ⟨hCount, ?_⟩
  rw [← hLength] at hCount
  rcases build_of_plan hReads hAnnounced hPeer hPlan hBase hSlots hCount hUsable with
    ⟨rows, hBuild, -⟩
  by_contra hNegative
  apply hCommits.neverNegative _ plan draws hPlan
  rw [hBuild, hShare, hLength, if_pos (not_le.mp hNegative)]

theorem commits_of_covered (hCovered : FeesCovered participants.length feerate peer) :
    CommitsToPlans hexToBin sha256 setup points context participants myPubkey feerate peer := by
  have hEnough :
      ∀ randomUnit plan,
      planP2pOutputValues (peer.options participants.length feerate) randomUnit = .ok plan →
        peer.inputs.length + plan.values.length ≤ credentialSlotsPerPeer ∧
          componentFees feerate peer.inputs.length plan.values.length ≤ plan.feeShare := by
    intro randomUnit plan hPlan
    have hPlanned := planP2pOutputValues_spec hPlan
    have hHere := hCovered plan.values.length ⟨check_of_plan hPlan, hPlanned.affordable⟩
    exact ⟨hHere.1, le_trans hHere.2 hPlanned.share_le⟩
  constructor
  · intro randomUnit plan draws hPlan
    rcases hEnough randomUnit plan hPlan with ⟨hCount, hFees⟩
    rcases peerCredentialSlotBase_of_mem hMe with ⟨base, hBase, hSlots⟩
    have hLength := (contribution_outputs peer plan).1
    have hPrepared := prepared_of_plan hReads hAnnounced hPeer hPlan hSlots hCount
    rw [build_eq hBase (by rw [hLength]; exact hCount) draws]
    apply bind_ne_error (builtRows_ne_negative hPrepared _ draws)
    intro rows hRows
    rw [(builtRows_spec hRows).amounts, excess_of_plan hPeer hPlan, if_neg (by omega)]
    intro hError
    cases hError
  · intro randomUnit plan draws base hPlan hBase hUsable
    rcases hEnough randomUnit plan hPlan with ⟨hCount, hFees⟩
    rcases peerCredentialSlotBase_of_mem hMe with ⟨base', hBase', hSlots⟩
    rw [hBase] at hBase'
    cases hBase'
    rcases build_of_plan hReads hAnnounced hPeer hPlan hBase hSlots hCount hUsable with
      ⟨rows, hBuild, hBuilt⟩
    rw [if_neg (not_lt.mpr hFees)] at hBuild
    exact ⟨_, hBuild, balance_of_plan hReads hPeer hPlan hFees hBuilt⟩

end Covered

--- Samples

open Fusion (sevenSetup wideSeven)
open Schnorr (sevenEncode sevenSha256)

def sampleIssuer : IssuerPoints where
  roundPubkey := hexString (sevenEncode ((3 : Nat) : ZMod 7)).toList
  blindNoncePoints := List.replicate 48 (hexString (sevenEncode ((2 : Nat) : ZMod 7)).toList)

def sampleContext : FusionCredentialContext where
  session := "s"
  network := "chipnet"
  tier := 10000

theorem sampleIssuer_announced :
    Announced sampleHexToBin wideSeven sampleIssuer
      (["a", "b"].length * credentialSlotsPerPeer) := by
  constructor
  · exact StagedUpdate.exists_ok_of_check (by decide +kernel)
  · intro index hIndex
    have hParse :
        ∃ point,
        wideSeven.parsePoint (sampleHexToBin (hexString (sevenEncode ((2 : Nat) : ZMod 7)).toList))
              = .ok point ∧
          point = point :=
      StagedUpdate.exists_ok_of_check (by decide +kernel)
    rcases hParse with ⟨point, hParse, -⟩
    refine ⟨_, point, ?_, ?_, hParse⟩
    · exact List.getElem?_replicate_of_lt hIndex
    · decide +kernel

/- The texts of the peer are those of its coin and of its scripts. -/
theorem samplePeer_spendable : (samplePeer 'a').Spendable := by
  have hTxid : String.ofList (List.replicate 64 'a') = hexString (List.replicate 32 0xaa) := by
    decide +kernel
  have hScript :
      String.ofList ("76a914".toList ++ List.replicate 40 '0' ++ "88ac".toList) =
        hexString ([0x76, 0xa9, 0x14] ++ List.replicate 20 0 ++ [0x88, 0xac]) := by
    decide +kernel
  constructor
  · intro input hMem
    rw [List.mem_singleton.mp hMem]
    refine ⟨List.replicate 32 0xaa, ?_, rfl⟩
    change HexText (String.ofList (List.replicate 64 'a')) _
    rw [hTxid]
    exact hexText_hexString _
  · intro input hMem
    rw [List.mem_singleton.mp hMem]
    exact ⟨le_refl 0, by decide⟩
  · intro index
    refine ⟨[0x76, 0xa9, 0x14] ++ List.replicate 20 0 ++ [0x88, 0xac], ?_, rfl⟩
    change HexText (String.ofList ("76a914".toList ++ List.replicate 40 '0' ++ "88ac".toList)) _
    rw [hScript]
    exact hexText_hexString _

end OptnWallet.Nostr
