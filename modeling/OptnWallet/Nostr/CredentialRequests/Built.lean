import OptnWallet.Core.Fusion.Schnorr.Blind
import OptnWallet.Nostr.ComponentV4.Agreement
import OptnWallet.Nostr.CredentialRequests

/-
  What a request for credentials is made of.  Each component is committed to with its own amount
  and nonce, so that the commitments add up to the excess fee under the sum of the nonces.

  Main declarations:
    * `Nostr.BuiltRows`
    * `Nostr.builtRows_spec`
    * `Nostr.pedersenBalanceHolds_iff`
-/

--- Safe Amounts

namespace OptnWallet.Nostr

open Schnorr (Curve toBytes fromRepr fromRepr_toBytes)
open StagedUpdate (bind_of_ok bind_eq_ok_iff mapError_eq_ok_iff)

theorem natAbs_lt_of_isSafeInteger {value : Int} (hSafe : isSafeInteger value = true) :
    value.natAbs < 2 ^ 53 := by
  unfold isSafeInteger at hSafe
  exact of_decide_eq_true hSafe

variable {amount : Int}

theorem amountAsI64_eq (hSafe : isSafeInteger amount = true) :
    amountAsI64 amount = .ok (Int64.ofInt amount) := if_pos hSafe

theorem isSafeInteger_of_amountAsI64 {value : Int64} (hAmount : amountAsI64 amount = .ok value) :
    isSafeInteger amount = true ∧ value = Int64.ofInt amount := by
  unfold amountAsI64 at hAmount
  split at hAmount
  · rename_i hSafe
    exact ⟨hSafe, (Except.ok.inj hAmount).symm⟩
  · cases hAmount

theorem scalarFromI64_ofInt {n : Nat} (hSafe : isSafeInteger amount = true) :
    (Pedersen.scalarFromI64 (Int64.ofInt amount) : ZMod n) = (amount : ZMod n) := by
  have hLt := natAbs_lt_of_isSafeInteger hSafe
  have hRange : Overflow.InRange amount := ⟨by omega, by omega⟩
  rw [Pedersen.scalarFromI64_eq, Overflow.toInt_ofInt hRange]

--- Commitments

variable {n : Nat} {Point : Type} [AddCommGroup Point] [Module (ZMod n) Point] [DecidableEq Point]
variable {curve : Curve n Point} {hexToBin : String → List UInt8}
variable {sha256 : List UInt8 → Vector UInt8 32} {setup : Pedersen.Setup curve}

/- The point that a commitment displays. -/
def amountPoint (setup : Pedersen.Setup curve) (amount : Int) (nonce : ZMod n) : Point :=
  Commitments.commit setup.h curve.generator (amount : ZMod n) nonce

theorem pedersenCommit_eq_ok_iff {nonce : ZMod n} {commitment : Commitment} :
    pedersenCommit setup amount nonce = .ok commitment ↔
      isSafeInteger amount = true ∧
        amountPoint setup amount nonce ≠ 0 ∧
        commitment =
          { commitmentHex := hexString (setup.encodePoint (amountPoint setup amount nonce)).toList
            nonceHex := hexString (toBytes nonce).toList } := by
  have hPoint (hSafe : isSafeInteger amount = true) :
      Pedersen.commitPointSigned setup (Int64.ofInt amount) nonce =
        amountPoint setup amount nonce := by
    unfold Pedersen.commitPointSigned amountPoint
    rw [scalarFromI64_ofInt hSafe]
  constructor
  · intro hCommit
    unfold pedersenCommit at hCommit
    rcases bind_eq_ok_iff.mp hCommit with ⟨value, hValue, hEncode⟩
    rcases bind_eq_ok_iff.mp hEncode with ⟨encoded, hEncoded, hDone⟩
    rcases isSafeInteger_of_amountAsI64 (mapError_eq_ok_iff.mp hValue) with ⟨hSafe, rfl⟩
    rw [hPoint hSafe] at hEncoded
    unfold Pedersen.encodeUncompressed at hEncoded
    split at hEncoded
    · cases hEncoded
    · rename_i hNonzero
      rw [← Except.ok.inj hEncoded] at hDone
      exact ⟨hSafe, hNonzero, (Except.ok.inj hDone).symm⟩
  · intro hBoth
    rcases hBoth with ⟨hSafe, hNonzero, rfl⟩
    have hEncoded :
        Pedersen.encodeUncompressed setup (amountPoint setup amount nonce) =
          .ok (setup.encodePoint (amountPoint setup amount nonce)) :=
      if_neg hNonzero
    unfold pedersenCommit
    rw [bind_of_ok (mapError_eq_ok_iff.mpr (amountAsI64_eq hSafe)), hPoint hSafe,
      bind_of_ok hEncoded]

/- A component that was built: its commitment is to its amount under its nonce. -/
def Committed (setup : Pedersen.Setup curve) (row : BuiltComponent n) : Prop :=
  pedersenCommit setup row.contributionAmount row.nonce = .ok row.commitment

variable {rows : List (BuiltComponent n)}

/- By induction over the components. -/
theorem sumPoints_of_committed (hReads : ReadsHex hexToBin)
    (hRows : ∀ row ∈ rows, Committed setup row) :
    sumPoints curve ((rows.map (fun row => row.commitment.commitmentHex)).map hexToBin) =
      some (rows.map (fun row => amountPoint setup row.contributionAmount row.nonce)).sum := by
  induction rows with
  | nil => rfl
  | cons row rows ih =>
    rw [List.forall_mem_cons] at hRows
    rcases pedersenCommit_eq_ok_iff.mp hRows.1 with ⟨-, hNonzero, hCommitment⟩
    rw [List.map_cons, List.map_cons, List.map_cons, List.sum_cons, hCommitment]
    unfold sumPoints
    rw [hReads.displayed, setup.parse_encode _ hNonzero, ih hRows.2]
    rfl

theorem lengths_of_committed (hReads : ReadsHex hexToBin)
    (hRows : ∀ row ∈ rows, Committed setup row) :
    ((rows.map (fun row => row.commitment.commitmentHex)).map hexToBin).any
        (fun commitment => commitment.length ≠ 65) = false := by
  rw [List.any_eq_false]
  intro commitment hMem
  rw [List.map_map, List.mem_map] at hMem
  rcases hMem with ⟨row, hRow, rfl⟩
  rcases pedersenCommit_eq_ok_iff.mp (hRows row hRow) with ⟨-, -, hCommitment⟩
  rw [Function.comp_apply, hCommitment, hReads.displayed, Vector.length_toList]
  decide

omit [DecidableEq Point] in
theorem sum_amountPoint (rows : List (BuiltComponent n)) :
    (rows.map (fun row => amountPoint setup row.contributionAmount row.nonce)).sum =
      amountPoint setup (rows.map BuiltComponent.contributionAmount).sum
        (rows.map BuiltComponent.nonce).sum := by
  have hCast :
      (rows.map
          (fun row => (row.contributionAmount : ZMod n))).sum =
        (((rows.map BuiltComponent.contributionAmount).sum : Int) : ZMod n) := by
    induction rows with
    | nil => simp
    | cons row rows ih =>
      rw [List.map_cons, List.sum_cons, ih, List.map_cons, List.sum_cons, Int.cast_add]
  have hSum :=
    Commitments.sum_commit setup.h curve.generator
      (fun row : BuiltComponent n => (row.contributionAmount : ZMod n)) BuiltComponent.nonce rows
  rw [hCast] at hSum
  exact hSum

/- The displayed sum of the nonces is a scalar unless it is zero. -/
omit [DecidableEq Point] in
theorem scalarFrom_sumNoncesHex (hReads : ReadsHex hexToBin) (curve : Curve n Point)
    {nonces : List (ZMod n)} (hNonces : nonces ≠ []) :
    scalarFrom (n := n) (hexToBin (sumNoncesHex nonces)) =
      if nonces.sum = 0 then none else some nonces.sum := by
  have hPrime : NeZero n := ⟨curve.prime.ne_zero⟩
  have hLength : nonces.length ≠ 0 := by
    intro hZero
    exact hNonces (List.length_eq_zero_iff.mp hZero)
  have hArray : array32 (toBytes nonces.sum).toList = some (toBytes nonces.sum) := by
    unfold array32
    rw [dif_pos (Vector.length_toList)]
    rfl
  unfold sumNoncesHex
  rw [if_neg hLength, hReads.displayed]
  unfold scalarFrom
  rw [hArray, Option.bind_eq_bind, Option.bind_some, fromRepr_toBytes curve.order_le,
    Option.bind_eq_bind, Option.bind_some]

/-
  The check of what was committed to.  It passes for an excess fee that is a safe integer, unless
  the nonces cancel out.
-/
theorem pedersenBalanceHolds_iff (hReads : ReadsHex hexToBin)
    (hRows : ∀ row ∈ rows, Committed setup row) (hNonempty : rows ≠ [])
    (hSafe : isSafeInteger (rows.map BuiltComponent.contributionAmount).sum = true) :
    pedersenBalanceHolds hexToBin setup (rows.map (fun row => row.commitment.commitmentHex))
        (rows.map BuiltComponent.contributionAmount).sum
        (sumNoncesHex (rows.map BuiltComponent.nonce)) = true ↔
    (rows.map BuiltComponent.nonce).sum ≠ 0 := by
  have hBounds :
      ¬ (((rows.map (fun row => row.commitment.commitmentHex)).map hexToBin).length = 0 ∨
        ((rows.map
            (fun row => row.commitment.commitmentHex)).map
            hexToBin).any
            (fun commitment => commitment.length ≠ 65) =
          true) := by
    rw [not_or, lengths_of_committed hReads hRows, List.length_map, List.length_map]
    exact ⟨fun hZero => hNonempty (List.length_eq_zero_iff.mp hZero), Bool.false_ne_true⟩
  have hNonces : rows.map BuiltComponent.nonce ≠ [] := by
    intro hNil
    exact hNonempty (List.map_eq_nil_iff.mp hNil)
  unfold pedersenBalanceHolds
  dsimp only
  rw [if_neg hBounds, amountAsI64_eq hSafe, sumPoints_of_committed hReads hRows,
    scalarFrom_sumNoncesHex hReads curve hNonces]
  dsimp only
  by_cases hZero : (rows.map BuiltComponent.nonce).sum = 0
  · rw [if_pos hZero]
    exact ⟨fun hFalse => absurd hFalse Bool.false_ne_true, fun hNe => absurd hZero hNe⟩
  · rw [if_neg hZero]
    dsimp only
    rw [decide_eq_true_eq, sum_amountPoint]
    refine ⟨fun _ => hZero, fun _ => ?_⟩
    unfold amountPoint Pedersen.commitPointSigned
    rw [scalarFromI64_ofInt hSafe]

--- Rows

section Rows

variable {points : IssuerPoints} {context : FusionCredentialContext} {feerate : Nat}

/- The amounts of the components, in their places. -/
def amountsOf (feerate : Nat) (contribution : PeerContribution) : List Int :=
  contribution.inputs.map (inputAmount feerate) ++ contribution.outputs.map (outputAmount feerate)

/- The nonces that are drawn for the components. -/
def noncesOf (draws : Nat → ComponentDraws n) (count : Nat) : List (ZMod n) :=
  (List.range count).map (fun index => (draws index).nonce)

/- One row of a request. -/
structure BuiltRow (setup : Pedersen.Setup curve) (amount : Int) (nonce : ZMod n)
    (row : BuiltComponent n) : Prop where
  amount_eq : row.contributionAmount = amount
  nonce_eq : row.nonce = nonce
  committed : Committed setup row

variable {index : Nat} {draws : ComponentDraws n} {row : BuiltComponent n}

theorem builtComponent_spec {amount : Int} {component : List UInt8}
    {message : Except String (Vector UInt8 32)} {opened : OpenedComponent} {r : String}
    (hBuilt :
        builtComponent hexToBin sha256 setup points index draws amount component message opened r =
          .ok row) : BuiltRow setup amount draws.nonce row := by
  unfold builtComponent at hBuilt
  rcases bind_eq_ok_iff.mp hBuilt with ⟨commitment, hCommitment, hHash⟩
  rcases bind_eq_ok_iff.mp hHash with ⟨hash, -, hPending⟩
  rcases bind_eq_ok_iff.mp hPending with ⟨pending, -, hSalted⟩
  rcases bind_eq_ok_iff.mp hSalted with ⟨salted, -, hDone⟩
  cases hDone
  exact ⟨rfl, rfl, hCommitment⟩

theorem builtInput_spec {input : FusionInputRef}
    (hBuilt : builtInput hexToBin sha256 setup points feerate index draws input = .ok row) :
    BuiltRow setup (inputAmount feerate input) draws.nonce row := by
  unfold builtInput at hBuilt
  rcases bind_eq_ok_iff.mp hBuilt with ⟨r, -, hEncode⟩
  rcases bind_eq_ok_iff.mp hEncode with ⟨bytes, -, hRow⟩
  exact builtComponent_spec hRow

theorem builtOutput_spec {output : FusionOutputRef}
    (hBuilt : builtOutput hexToBin sha256 setup points context feerate index draws output = .ok row)
      : BuiltRow setup (outputAmount feerate output) draws.nonce row := by
  unfold builtOutput at hBuilt
  rcases bind_eq_ok_iff.mp hBuilt with ⟨r, -, hEncode⟩
  rcases bind_eq_ok_iff.mp hEncode with ⟨bytes, -, hRow⟩
  exact builtComponent_spec hRow

theorem map_zipIdx_snd {α β : Type} (f : Nat → β) (items : List α) :
    items.zipIdx.map (fun entry => f entry.2) = (List.range items.length).map f := by
  have hSnd := List.zipIdx_map_snd 0 items
  rw [← List.range_eq_range'] at hSnd
  rw [← hSnd, List.map_map]
  rfl

theorem map_zipIdx_fst {α β : Type} (f : α → β) (items : List α) :
    items.zipIdx.map (fun entry => f entry.1) = items.map f := by
  have hFst := List.zipIdx_map_fst 0 items
  conv_rhs => rw [← hFst, List.map_map]
  rfl

/- The rows of a whole contribution. -/
structure BuiltRows (setup : Pedersen.Setup curve) (feerate : Nat) (draws : Nat → ComponentDraws n)
    (contribution : PeerContribution) (rows : List (BuiltComponent n)) : Prop where
  amounts : rows.map BuiltComponent.contributionAmount = amountsOf feerate contribution
  nonces :
    rows.map BuiltComponent.nonce =
      noncesOf draws (contribution.inputs.length + contribution.outputs.length)
  committed : ∀ row ∈ rows, Committed setup row

theorem builtRows_spec {base : Nat} {draws : Nat → ComponentDraws n}
    {contribution : PeerContribution} {rows : List (BuiltComponent n) × List (BuiltComponent n)}
    (hRows :
        builtRows hexToBin sha256 setup points context feerate base draws contribution = .ok rows) :
    BuiltRows setup feerate draws contribution (rows.1 ++ rows.2) := by
  unfold builtRows at hRows
  rcases bind_eq_ok_iff.mp hRows with ⟨inputs, hInputs, hRest⟩
  rcases bind_eq_ok_iff.mp hRest with ⟨outputs, hOutputs, hDone⟩
  cases hDone
  constructor
  · have hFirst :=
      StagedUpdate.map_eq_of_mapM (fun _ _ hHere => (builtInput_spec hHere).amount_eq) hInputs
    have hSecond :=
      StagedUpdate.map_eq_of_mapM (fun _ _ hHere => (builtOutput_spec hHere).amount_eq) hOutputs
    rw [List.map_append, hFirst, hSecond, map_zipIdx_fst, map_zipIdx_fst]
    rfl
  · have hFirst :=
      StagedUpdate.map_eq_of_mapM (fun _ _ hHere => (builtInput_spec hHere).nonce_eq) hInputs
    have hSecond :=
      StagedUpdate.map_eq_of_mapM (fun _ _ hHere => (builtOutput_spec hHere).nonce_eq) hOutputs
    have hFront := map_zipIdx_snd (fun index => (draws index).nonce) contribution.inputs
    have hBack :=
      map_zipIdx_snd (fun index => (draws (contribution.inputs.length + index)).nonce)
        contribution.outputs
    rw [List.map_append, hFirst, hSecond, hFront, hBack]
    unfold noncesOf
    rw [List.range_add, List.map_append, List.map_map]
    rfl
  · intro row hMem
    rcases List.mem_append.mp hMem with hIn | hOut
    · rcases (StagedUpdate.mem_of_mapM hInputs).mp hIn with ⟨entry, -, hHere⟩
      exact (builtInput_spec hHere).committed
    · rcases (StagedUpdate.mem_of_mapM hOutputs).mp hOut with ⟨entry, -, hHere⟩
      exact (builtOutput_spec hHere).committed

end Rows

end OptnWallet.Nostr
