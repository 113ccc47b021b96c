import OptnWallet.Core.Fusion.Schnorr.Blind
import OptnWallet.Fusion.Blame
import OptnWallet.Fusion.ServerPlan

/-
  The balance equation of a fusion round: the commitments of a player add up to its excess fee,
  and each of them opens to what the component contributes.  The amounts are signed 64-bit
  integers, and a plan bounds what is left of the inputs but not the inputs themselves.

  Main declarations:
    * `Fusion.Balances`
    * `Fusion.FitsSigned`
    * `Fusion.plan_balances_iff`
-/

--- Exact Amounts

namespace OptnWallet.Fusion

open Overflow StagedUpdate WordSums Word64
open Schnorr (Curve BlindSignatureRequest compressed toBytes fromRepr)

/- What an input leaves after its fee. -/
def inputNet (feerate : UInt64) (input : FusionInput) : Int :=
  (input.value.toNat : Int) - (feeOf feerate (108 + input.pubkey.length) : Nat)

/- What an output takes together with its fee, below zero. -/
def outputNet (feerate : UInt64) (output : FusionOutput) : Int :=
  -(output.value.toNat : Int) - (feeOf feerate (9 + output.scriptpubkey.length) : Nat)

/- The amounts of the components without any wrapping. -/
def exactAmounts (inputs : List FusionInput) (outputs : List FusionOutput) (numBlanks : Nat)
    (feerate : UInt64) : List Int :=
  inputs.map (inputNet feerate) ++ outputs.map (outputNet feerate) ++ List.replicate numBlanks 0

/- The outputs of a plan, on the first scripts of the pool. -/
def plannedOutputs (outputScripts : List (List UInt8)) (plan : FusionTierPlan) :
    List FusionOutput :=
  ((outputScripts.take plan.outputValues.length).zip plan.outputValues).map
    (fun entry => { scriptpubkey := entry.1, value := entry.2 })

def WellFormedTxid (input : FusionInput) : Prop :=
  ∃ txid, hexToBytes input.prevTxid = .ok txid ∧ txid.length = 32

/-
  No value and no sum of the inputs, less their fees, reaches the end of the signed range.
-/
def FitsSigned (feerate : UInt64) (inputs : List FusionInput) : Prop :=
  (∀ input ∈ inputs, input.value.toNat < 2 ^ 63) ∧
    ∀ count, ((inputs.take count).map (inputNet feerate)).sum < 2 ^ 63

--- The Equation

variable {n : Nat} {Point : Type} [AddCommGroup Point] [Module (ZMod n) Point] [DecidableEq Point]
variable (components : Wire Component) (curve : Curve n Point) (setup : Pedersen.Setup curve)
variable (sha256 : List UInt8 → Vector UInt8 32) (commitments : Wire InitialCommitment)
variable (draws : Draws n)

/- The point that a written commitment commits with. -/
def amountPoint (commitSer : List UInt8) : Except String Point := do
  let commitment ← commitments.decode commitSer
  curve.parsePoint commitment.amountCommitment

/- A commitment of a round opens to the contribution of its component. -/
def Opens (feerate : UInt64) (compSer commitSer : List UInt8) (nonceBytes : Vector UInt8 32) :
    Prop :=
  ∃ component contribution nonce,
    components.decode compSer = .ok component ∧
      Blame.componentContribution n component feerate = .ok contribution ∧
      fromRepr nonceBytes = some nonce ∧
      amountPoint curve commitments commitSer =
        .ok (Commitments.commit setup.h curve.generator contribution nonce)

/-
  A build of the program commits a player to a plan: nothing wraps, the excess fee is that of the
  plan, every amount is what its component contributes, and the commitments add up.
-/
structure Balances (mode : Mode) (inputs : List FusionInput) (outputs : List FusionOutput)
    (numComponents : Nat) (feerate : UInt64) (roundPubkey : List UInt8)
    (blindNoncePoints : List (List UInt8)) (excessFee : UInt64) (built : List (List UInt8 × Int64))
    (commit : RoundCommit n Point) : Prop where
  builds :
    builtComponents components mode inputs outputs (numComponents - inputs.length - outputs.length)
        feerate = .ok built
  exact : built.map (fun entry => entry.2.toInt) =
    exactAmounts inputs outputs (numComponents - inputs.length - outputs.length) feerate
  contributes :
    ∀ entry ∈ built,
    ∃ component,
      components.decode entry.1 = .ok component ∧
        Blame.componentContribution n component feerate = .ok (Pedersen.scalarFromI64 entry.2)
  commits :
    buildRoundCommit components curve setup sha256 commitments draws mode inputs outputs
        numComponents feerate roundPubkey blindNoncePoints = .ok commit
  count : commit.componentsSorted.length = numComponents
  excess : commit.excessFee = excessFee
  declared : commit.playerCommit.excessFee = excessFee
  opens :
    ∀ (i : Nat) compSer commitSer proof,
    commit.componentsSorted[i]? = some compSer →
      commit.playerCommit.initialCommitments[i]? = some commitSer →
      commit.proofs[i]? = some proof →
      Opens components curve setup commitments feerate compSer commitSer proof.2
  sums :
    ∃ (points : List Point) (totalNonce : ZMod n),
    commit.playerCommit.initialCommitments.mapM (amountPoint curve commitments) = .ok points ∧
      (∃ bytes :
          Vector UInt8 32, commit.playerCommit.pedersenTotalNonce = bytes.toList ∧
            fromRepr bytes = some totalNonce) ∧
      points.sum = (excessFee.toNat : ZMod n) • setup.h + totalNonce • curve.generator

--- Fees

theorem orPanic_eq_ok_iff {α : Type} {value : Option α} {a : α} :
    orPanic value = .ok a ↔ value = some a := by
  cases value with
  | none => simp [orPanic]
  | some value => simp [orPanic]

variable {feerate : UInt64}

section

variable (hFeerate : feerate ≤ maxComponentFeerate)
include hFeerate

theorem feeOf_le {size : Nat} (hSize : size ≤ 141) : feeOf feerate size ≤ 705 := by
  have hRate : feerate.toNat ≤ 5000 := UInt64.le_iff_toNat_le.mp hFeerate
  have hMul := Nat.mul_le_mul hSize hRate
  unfold feeOf
  omega

theorem blameFee_eq {size : Nat} (hSize : size ≤ 141) :
    Blame.componentFee feerate size = .ok (UInt64.ofNat (feeOf feerate size)) := by
  have hFee := feeOf_le hFeerate hSize
  unfold feeOf at hFee
  unfold Blame.componentFee feeOf
  dsimp only
  rw [if_neg (by omega), if_neg (by omega)]

theorem componentFee_eq {size : UInt64} (hSize : size.toNat ≤ 141) (mode : Mode) :
    componentFee mode size feerate = .ok (UInt64.ofNat (feeOf feerate size.toNat)) := by
  have hRate : feerate.toNat ≤ 5000 := UInt64.le_iff_toNat_le.mp hFeerate
  have hMul := Nat.mul_le_mul hSize hRate
  have hFee := feeOf_le hFeerate hSize
  unfold componentFee
  rw [keepUnsigned_eq (by omega)]
  refine congrArg Except.ok (UInt64.toNat_inj.mp ?_)
  rw [toNat_divCeil_fee, UInt64.toNat_ofNat_of_lt' (lt_of_le_of_lt hMul (by decide)),
    UInt64.toNat_ofNat_of_lt' (lt_of_le_of_lt hFee (by decide))]
  rfl

end

theorem toInt_fee {fee : Nat} (hFee : fee ≤ 705) : (UInt64.ofNat fee).toInt64.toInt = fee := by
  have hNat : (UInt64.ofNat fee).toNat = fee :=
    UInt64.toNat_ofNat_of_lt' (lt_of_le_of_lt hFee (by decide))
  rw [toInt_toInt64, hNat, if_pos (by omega)]

theorem toInt_value {value : UInt64} (hValue : value.toNat < 2 ^ 63) :
    value.toInt64.toInt = value.toNat := by
  rw [toInt_toInt64, if_pos hValue]

--- Parts

def txidBytes (input : FusionInput) : List UInt8 :=
  match hexToBytes input.prevTxid with
  | .ok txid => txid
  | .error _ => []

/- A component with its exact amount. -/
def inputPart (feerate : UInt64) (input : FusionInput) : Component × Int :=
  (inputComponent input (txidBytes input), inputNet feerate input)

def outputPart (feerate : UInt64) (output : FusionOutput) : Component × Int :=
  (outputComponent output, outputNet feerate output)

def parts (inputs : List FusionInput) (outputs : List FusionOutput) (numBlanks : Nat)
    (feerate : UInt64) : List (Component × Int) :=
  inputs.map (inputPart feerate) ++ outputs.map (outputPart feerate) ++
    List.replicate numBlanks (blankComponent, 0)

def entryOf (part : Component × Int) : List UInt8 × Int64 :=
  (components.encodeToVec part.1, Int64.ofInt part.2)

theorem map_parts (inputs : List FusionInput) (outputs : List FusionOutput) (numBlanks : Nat)
    (feerate : UInt64) :
    (parts inputs outputs numBlanks feerate).map Prod.snd =
      exactAmounts inputs outputs numBlanks feerate := by
  unfold parts exactAmounts
  rw [List.map_append, List.map_append, List.map_map, List.map_map, List.map_replicate]
  rfl

section Parts

variable {feerate : UInt64} {inputs : List FusionInput} {outputs : List FusionOutput}
variable {numBlanks : Nat} (hFeerate : feerate ≤ maxComponentFeerate)
variable (hKeys : ∀ input ∈ inputs, input.pubkey.length = 33)
variable (hScripts : ∀ output ∈ outputs, output.scriptpubkey.length = 25)

include hFeerate

theorem builtInput_eq {input : FusionInput} (hKey : input.pubkey.length = 33)
    (hTxid : WellFormedTxid input) (hValue : input.value.toNat < 2 ^ 63) (mode : Mode) :
    builtInput components mode feerate input =
      .ok (entryOf components (inputPart feerate input)) := by
  rcases hTxid with ⟨txid, hHex, hLength⟩
  have hFee : feeOf feerate 141 ≤ 705 := feeOf_le hFeerate (by decide)
  have hSize : sizeOfInput input.pubkey.length = 141 := by
    rw [hKey]
    rfl
  unfold builtInput
  rw [bind_of_ok (mapError_eq_ok_iff.mpr hHex), if_neg (not_not.mpr hLength), hSize,
    bind_of_ok (componentFee_eq hFeerate (by decide) mode), toInt_value hValue,
    show (141 : UInt64).toNat = 141 from rfl, toInt_fee hFee, keepSigned_eq ⟨by omega, by omega⟩]
  unfold entryOf inputPart inputNet txidBytes
  rw [hHex, hKey]
  rfl

theorem builtOutput_eq {output : FusionOutput} (hScript : output.scriptpubkey.length = 25)
    (hValue : output.value.toNat + feeOf feerate 34 < 2 ^ 63) (mode : Mode) :
    builtOutput components mode feerate output =
      .ok (entryOf components (outputPart feerate output)) := by
  have hFee : feeOf feerate 34 ≤ 705 := feeOf_le hFeerate (by decide)
  have hSize : sizeOfOutput output.scriptpubkey.length = 34 := by
    rw [hScript]
    rfl
  have hNegated : InRange (-(output.value.toNat : Int)) := ⟨by omega, by omega⟩
  unfold builtOutput
  rw [hSize, bind_of_ok (componentFee_eq hFeerate (by decide) mode),
    toInt_value (by omega), keepSigned_eq hNegated]
  change
    (do
      let amount ← orPanic (keepSigned mode ((Int64.ofInt (-(output.value.toNat : Int))).toInt - _))
      _) = _
  rw [toInt_ofInt hNegated,
    show (34 : UInt64).toNat = 34 from rfl, toInt_fee hFee, keepSigned_eq ⟨by omega, by omega⟩]
  unfold entryOf outputPart outputNet
  rw [hScript]
  rfl

include hKeys hScripts

theorem builtComponents_eq (hTxids : ∀ input ∈ inputs, WellFormedTxid input)
    (hValues : ∀ input ∈ inputs, input.value.toNat < 2 ^ 63)
    (hOutputs : ∀ output ∈ outputs, output.value.toNat + feeOf feerate 34 < 2 ^ 63) (mode : Mode) :
    builtComponents components mode inputs outputs numBlanks feerate =
      .ok ((parts inputs outputs numBlanks feerate).map (entryOf components)) := by
  have hIns :
      inputs.mapM (builtInput components mode feerate) = .ok (inputs.map
            (fun input => entryOf components (inputPart feerate input))) :=
    mapM_of_ok
      (fun input hMem => builtInput_eq components hFeerate (hKeys input hMem) (hTxids input hMem)
          (hValues input hMem) mode)
  have hOuts :
      outputs.mapM (builtOutput components mode feerate) = .ok (outputs.map
            (fun output => entryOf components (outputPart feerate output))) :=
    mapM_of_ok
      (fun output hMem =>
        builtOutput_eq components hFeerate (hScripts output hMem) (hOutputs output hMem) mode)
  unfold builtComponents parts
  rw [bind_of_ok hIns, bind_of_ok hOuts, List.map_append, List.map_append, List.map_map,
    List.map_map, List.map_replicate]
  rfl

/- What a component contributes is its exact amount.  The salt commitment does not count. -/
theorem contribution_eq {part : Component × Int}
    (hMem : part ∈ parts inputs outputs numBlanks feerate) (saltCommitment : List UInt8) :
    Blame.componentContribution n { part.1 with saltCommitment } feerate =
      .ok ((part.2 : Int) : ZMod n) := by
  unfold parts at hMem
  rw [List.mem_append, List.mem_append, List.mem_map, List.mem_map] at hMem
  rcases hMem with (⟨input, hMem, rfl⟩ | ⟨output, hMem, rfl⟩) | hBlank
  · have hKey := hKeys input hMem
    have hFee : feeOf feerate 141 ≤ 705 := feeOf_le hFeerate (by decide)
    unfold Blame.componentContribution inputPart inputComponent inputNet
    dsimp only
    rw [hKey, bind_of_ok (blameFee_eq hFeerate (by decide)),
      UInt64.toNat_ofNat_of_lt' (lt_of_le_of_lt hFee (by decide)),
      Int.cast_sub, Int.cast_natCast, Int.cast_natCast]
  · have hScript := hScripts output hMem
    have hFee : feeOf feerate 34 ≤ 705 := feeOf_le hFeerate (by decide)
    unfold Blame.componentContribution outputPart outputComponent outputNet
    dsimp only
    rw [hScript, bind_of_ok (blameFee_eq hFeerate (by decide)),
      UInt64.toNat_ofNat_of_lt' (lt_of_le_of_lt hFee (by decide)),
      Int.cast_sub, Int.cast_neg, Int.cast_natCast, Int.cast_natCast]
  · rw [(List.mem_replicate.mp hBlank).2, Int.cast_zero]
    rfl

end Parts

--- Rows

section Rows

section

variable (entry : (Component × Int) × Nat)

/- The component of a row, with the commitment to its salt. -/
def filled : Component :=
  { entry.1.1 with saltCommitment := (sha256 (draws.salts entry.2).toList).toList }

def rowPoint : Point :=
  Commitments.commit setup.h curve.generator ((entry.1.2 : Int) : ZMod n) (draws.nonces entry.2)

def rowCommitment : InitialCommitment :=
  { saltedComponentHash :=
      (sha256
        ((draws.salts entry.2).toList ++ components.encodeToVec (filled sha256 draws entry))).toList
    amountCommitment := (setup.encodePoint (rowPoint curve setup draws entry)).toList
    communicationKey := (curve.encode (draws.communicationKeys entry.2 • curve.generator)).toList }

def rowOf : Row n :=
  { commitSer := commitments.encodeToVec (rowCommitment components curve setup sha256 draws entry)
    compSer := components.encodeToVec (filled sha256 draws entry)
    salt := draws.salts entry.2
    nonceScalar := draws.nonces entry.2
    communicationPrivateKey := toBytes (draws.communicationKeys entry.2) }

end

variable {components curve setup sha256 commitments draws} {i : Nat}

theorem addRow_eq (hRoundTrips : components.RoundTrips) {part : Component × Int}
    {rows : List (Row n)} {start : Int} (hAmount : InRange part.2) (hStart : InRange start)
    (hSum : InRange (start + part.2)) (hPoint : rowPoint curve setup draws (part, i) ≠ 0)
    (mode : Mode) :
    addRow components curve setup sha256 commitments draws mode (rows, Int64.ofInt start)
        (entryOf components part, i) =
      .ok (rows ++ [rowOf components curve setup sha256 commitments draws (part, i)],
          Int64.ofInt (start + part.2)) := by
  have hScalar :
      (Pedersen.scalarFromI64 (Int64.ofInt part.2) : ZMod n) = ((part.2 : Int) : ZMod n) := by
    rw [Pedersen.scalarFromI64_eq, toInt_ofInt hAmount]
  have hEncode :
      Pedersen.encodeUncompressed setup
          (Pedersen.commitPointSigned setup (Int64.ofInt part.2) (draws.nonces i)) =
        .ok (setup.encodePoint (rowPoint curve setup draws (part, i))) := by
    unfold Pedersen.commitPointSigned Pedersen.encodeUncompressed
    rw [hScalar]
    exact if_neg hPoint
  have hKey :
      compressed curve (draws.communicationKeys i • curve.generator) =
        .ok (curve.encode (draws.communicationKeys i • curve.generator)) :=
    Schnorr.compressed_eq_ok_iff.mpr
      ⟨Schnorr.smul_generator_ne_zero curve (draws.communicationKeys_ne_zero i), rfl⟩
  unfold addRow entryOf
  dsimp only
  rw [hRoundTrips, toInt_ofInt hStart, toInt_ofInt hAmount, keepSigned_eq hSum]
  rw [bind_of_ok (mapError_eq_ok_iff.mpr rfl), bind_of_ok hEncode]
  change (compressed curve _ >>= _) = _
  rw [bind_of_ok hKey]
  rfl

/- By induction over the parts: every sum is in range. -/
theorem addRows_eq (hRoundTrips : components.RoundTrips) {parts : List (Component × Int)}
    {rows : List (Row n)} {start : Int} (hAmounts : ∀ part ∈ parts, InRange part.2)
    (hRuns : RunsInRange start (parts.map Prod.snd))
    (hPoints : ∀ entry ∈ parts.zipIdx i, rowPoint curve setup draws entry ≠ 0) (mode : Mode) :
    ((parts.map (entryOf components)).zipIdx i).foldlM
        (addRow components curve setup sha256 commitments draws mode) (rows, Int64.ofInt start) =
      .ok (rows ++ (parts.zipIdx i).map (rowOf components curve setup sha256 commitments draws),
          Int64.ofInt (start + (parts.map Prod.snd).sum)) := by
  induction parts generalizing i rows start with
  | nil =>
    simp only [List.map_nil, List.sum_nil, add_zero, List.zipIdx_nil, List.append_nil]
    rfl
  | cons part parts ih =>
    rw [List.forall_mem_cons] at hAmounts
    rw [List.map_cons, runsInRange_cons] at hRuns
    rw [List.zipIdx_cons, List.forall_mem_cons] at hPoints
    rw [List.map_cons, List.zipIdx_cons, List.foldlM_cons,
      bind_of_ok
        (addRow_eq hRoundTrips hAmounts.1 hRuns.1 (inRange_of_runs hRuns.2) hPoints.1 mode),
      ih hAmounts.2 hRuns.2 hPoints.2, List.map_cons, List.sum_cons, List.zipIdx_cons,
      List.map_cons, List.append_assoc, add_assoc]
    rfl

/- A build that stops at overflows has every sum in range. -/
theorem runs_of_addRows {built : List (List UInt8 × Int64)} {state state' : List (Row n) × Int64}
    (hRows :
        (built.zipIdx i).foldlM (addRow components curve setup sha256 commitments draws .panics)
            state = .ok state') :
    RunsInRange state.2.toInt (built.map (fun entry => entry.2.toInt)) := by
  induction built generalizing i state with
  | nil => exact inRange_toInt _
  | cons entry built ih =>
    rw [List.zipIdx_cons, List.foldlM_cons] at hRows
    rcases bind_eq_ok_iff.mp hRows with ⟨next, hNext, hRows⟩
    unfold addRow at hNext
    rcases bind_eq_ok_iff.mp hNext with ⟨comp, -, hNext⟩
    rcases bind_eq_ok_iff.mp hNext with ⟨point, -, hNext⟩
    rcases bind_eq_ok_iff.mp hNext with ⟨sum, hSum, hNext⟩
    rcases bind_eq_ok_iff.mp hNext with ⟨key, -, hNext⟩
    rw [orPanic_eq_ok_iff] at hSum
    have hExact := (inRange_of_keepSigned hSum).2
    have hRest := ih hRows
    rw [← Except.ok.inj hNext] at hRest
    rw [List.map_cons, runsInRange_cons, ← hExact]
    exact ⟨inRange_toInt _, hRest⟩

end Rows

--- Sums Of A Plan

section Sums

variable {feerate : UInt64}

theorem inputNet_eq {input : FusionInput} (hKey : input.pubkey.length = 33) :
    inputNet feerate input = (input.value.toNat : Int) - (feeOf feerate 141 : Nat) := by
  unfold inputNet
  rw [hKey]

theorem outputNet_eq {output : FusionOutput} (hScript : output.scriptpubkey.length = 25) :
    outputNet feerate output = -(output.value.toNat : Int) - (feeOf feerate 34 : Nat) := by
  unfold outputNet
  rw [hScript]

theorem sum_inputNet {inputs : List FusionInput}
    (hKeys : ∀ input ∈ inputs, input.pubkey.length = 33) :
    (inputs.map (inputNet feerate)).sum = (total (inputs.map (fun input => input.value)) : Int) -
        (inputs.length * feeOf feerate 141 : Nat) := by
  induction inputs with
  | nil => simp
  | cons input inputs ih =>
    rw [List.forall_mem_cons] at hKeys
    rw [List.map_cons, List.sum_cons, ih hKeys.2, List.map_cons, total_cons, List.length_cons,
      Nat.succ_mul, Nat.cast_add, Nat.cast_add, inputNet_eq hKeys.1]
    omega

theorem sum_outputNet {outputs : List FusionOutput}
    (hScripts : ∀ output ∈ outputs, output.scriptpubkey.length = 25) :
    (outputs.map (outputNet feerate)).sum =
      -(total (outputs.map (fun output => output.value)) : Int) -
        (feeOf feerate 34 * outputs.length : Nat) := by
  induction outputs with
  | nil => simp
  | cons output outputs ih =>
    rw [List.forall_mem_cons] at hScripts
    rw [List.map_cons, List.sum_cons, ih hScripts.2, List.map_cons, total_cons, List.length_cons,
      Nat.mul_succ, Nat.cast_add, Nat.cast_add, outputNet_eq hScripts.1]
    omega

theorem outputNet_nonpos (output : FusionOutput) : outputNet feerate output ≤ 0 := by
  unfold outputNet
  omega

variable {outputScripts : List (List UInt8)} {plan : FusionTierPlan}

theorem length_plannedOutputs (hPool : plan.outputValues.length ≤ outputScripts.length) :
    (plannedOutputs outputScripts plan).length = plan.outputValues.length := by
  unfold plannedOutputs
  rw [List.length_map, List.length_zip, List.length_take]
  omega

theorem values_plannedOutputs (hPool : plan.outputValues.length ≤ outputScripts.length) :
    (plannedOutputs outputScripts plan).map (fun output => output.value) = plan.outputValues := by
  unfold plannedOutputs
  rw [List.map_map]
  apply List.map_snd_zip
  rw [List.length_take]
  omega

theorem scripts_plannedOutputs (hScripts : ∀ script ∈ outputScripts, script.length = 25) :
    ∀ output ∈ plannedOutputs outputScripts plan, output.scriptpubkey.length = 25 := by
  intro output hMem
  unfold plannedOutputs at hMem
  rcases List.mem_map.mp hMem with ⟨entry, hEntry, rfl⟩
  exact hScripts _ (List.mem_of_mem_take (List.of_mem_zip hEntry).1)

variable {hello : ServerHello} {inputs : List FusionInput}

/- What is accepted of the inputs of a player. -/
abbrev AcceptedInputs (hello : ServerHello) (inputs : List FusionInput)
    (outputScripts : List (List UInt8)) (plan : FusionTierPlan) : Prop :=
  Accepted hello (inputs.map (fun input => input.pubkey)) (inputs.map (fun input => input.value))
    outputScripts plan

theorem keys_of_accepted (hAccepted : AcceptedInputs hello inputs outputScripts plan) :
    ∀ input ∈ inputs, input.pubkey.length = 33 := by
  intro input hMem
  exact hAccepted.keys _ (List.mem_map_of_mem hMem)

theorem sum_exactAmounts (hAccepted : AcceptedInputs hello inputs outputScripts plan)
    (numBlanks : Nat) :
    (inputs.map (inputNet hello.componentFeerate)).sum +
        ((plannedOutputs outputScripts plan).map (outputNet hello.componentFeerate) ++
            List.replicate numBlanks 0).sum = plan.excessFee.toNat := by
  have hBalance := hAccepted.balance
  rw [List.length_map] at hBalance
  rw [sum_inputNet (keys_of_accepted hAccepted), List.sum_append, List.sum_replicate, smul_zero,
    add_zero, sum_outputNet (scripts_plannedOutputs hAccepted.scripts),
    values_plannedOutputs hAccepted.pool, length_plannedOutputs hAccepted.pool]
  omega

theorem fall_nonpos {outputs : List FusionOutput} {numBlanks : Nat} :
    ∀ step ∈ outputs.map (outputNet feerate) ++ List.replicate numBlanks 0, step ≤ 0 := by
  intro step hMem
  rw [List.mem_append, List.mem_map] at hMem
  rcases hMem with ⟨output, -, rfl⟩ | hBlank
  · exact outputNet_nonpos output
  · rw [(List.mem_replicate.mp hBlank).2]

variable (hAccepted : AcceptedInputs hello inputs outputScripts plan)
include hAccepted

/- Sums of inputs less their fees do not fall far. -/
theorem inputSums_ge (count : Nat) :
    -2 ^ 63 ≤ ((inputs.take count).map (inputNet hello.componentFeerate)).sum := by
  have hEach :
      ∀ step ∈ (inputs.take count).map (inputNet hello.componentFeerate),
      -((705 : Nat) : Int) ≤ step := by
    intro step hMem
    rcases List.mem_map.mp hMem with ⟨input, hInput, rfl⟩
    have hFee : feeOf hello.componentFeerate 141 ≤ 705 := feeOf_le hAccepted.feerate_le (by decide)
    have hKey := keys_of_accepted hAccepted input (List.mem_of_mem_take hInput)
    rw [inputNet_eq hKey]
    omega
  have hSum := neg_mul_length_le_sum hEach
  have hCount := hAccepted.count
  have hComponents := hAccepted.components_le
  rw [List.length_map] at hCount
  unfold maxComponents at hComponents
  rw [List.length_map, List.length_take] at hSum
  omega

variable (hFits : FitsSigned hello.componentFeerate inputs)

/- The sums rise over the inputs and fall over the rest. -/
include hFits in
theorem runs_of_fits (numBlanks : Nat) :
    RunsInRange 0
      (exactAmounts inputs (plannedOutputs outputScripts plan) numBlanks
        hello.componentFeerate) := by
  have hEnd := sum_exactAmounts hAccepted numBlanks
  have hExcess := UInt64.le_iff_toNat_le.mp hAccepted.excess_le
  have hMax : maxExcessFee.toNat = 10000 := rfl
  have hRise : RunsInRange 0 (inputs.map (inputNet hello.componentFeerate)) := by
    rw [runsInRange_iff]
    intro count
    rw [zero_add, ← List.map_take]
    exact ⟨inputSums_ge hAccepted count, hFits.2 count⟩
  have hTop : InRange (inputs.map (inputNet hello.componentFeerate)).sum := by
    have hAll := runsInRange_iff.mp hRise inputs.length
    rw [zero_add, List.take_of_length_le (by rw [List.length_map])] at hAll
    exact hAll
  unfold exactAmounts
  rw [List.append_assoc, runsInRange_append, zero_add]
  refine ⟨hRise, runsInRange_of_fall fall_nonpos hTop ?_⟩
  rw [hEnd]
  exact ⟨by omega, by omega⟩

/- An output and its fee are part of what the inputs leave. -/
include hFits in
theorem output_lt {output : FusionOutput} (hMem : output ∈ plannedOutputs outputScripts plan) :
    output.value.toNat + feeOf hello.componentFeerate 34 < 2 ^ 63 := by
  have hEnd := sum_exactAmounts hAccepted 0
  have hTop := hFits.2 inputs.length
  have hLe :
      ((plannedOutputs outputScripts plan).map (outputNet hello.componentFeerate) ++
            List.replicate 0 0).sum ≤ outputNet hello.componentFeerate output :=
    sum_le_of_mem fall_nonpos (List.mem_append_left _ (List.mem_map_of_mem hMem))
  have hScript := scripts_plannedOutputs hAccepted.scripts output hMem
  rw [List.take_length] at hTop
  rw [outputNet_eq hScript] at hLe
  omega

include hFits in
theorem amounts_inRange (numBlanks : Nat) :
    ∀ amount ∈
      exactAmounts inputs (plannedOutputs outputScripts plan) numBlanks hello.componentFeerate,
    InRange amount := by
  intro amount hMem
  have hFee : feeOf hello.componentFeerate 141 ≤ 705 := feeOf_le hAccepted.feerate_le (by decide)
  unfold exactAmounts at hMem
  rw [List.mem_append, List.mem_append, List.mem_map, List.mem_map] at hMem
  rcases hMem with (⟨input, hMem, rfl⟩ | ⟨output, hMem, rfl⟩) | hBlank
  · have hValue := hFits.1 input hMem
    rw [inputNet_eq (keys_of_accepted hAccepted input hMem)]
    exact ⟨by omega, by omega⟩
  · have hLt := output_lt hAccepted hFits hMem
    rw [outputNet_eq (scripts_plannedOutputs hAccepted.scripts output hMem)]
    exact ⟨by omega, by omega⟩
  · rw [(List.mem_replicate.mp hBlank).2]
    exact ⟨by decide, by decide⟩

end Sums

--- Commitments Of A Plan

section Rounds

variable {components curve setup sha256 commitments draws}

/- A row opens to the exact amount of its part. -/
omit [DecidableEq Point] in
theorem amountPoint_rowOf (hCommitments : commitments.RoundTrips) {entry : (Component × Int) × Nat}
    (hPoint : rowPoint curve setup draws entry ≠ 0) :
    amountPoint curve commitments
        (rowOf components curve setup sha256 commitments draws entry).commitSer =
      .ok (rowPoint curve setup draws entry) := by
  unfold amountPoint rowOf
  rw [bind_of_ok (hCommitments _)]
  exact setup.parse_encode _ hPoint

variable {feerate : UInt64}

omit [DecidableEq Point] in
theorem opens_rowOf (hComponents : components.RoundTrips) (hCommitments : commitments.RoundTrips)
    {entry : (Component × Int) × Nat} (hPoint : rowPoint curve setup draws entry ≠ 0)
    (hContribution :
        Blame.componentContribution n (filled sha256 draws entry) feerate =
          .ok ((entry.1.2 : Int) : ZMod n)) :
    Opens components curve setup commitments feerate
      (rowOf components curve setup sha256 commitments draws entry).compSer
      (rowOf components curve setup sha256 commitments draws entry).commitSer
      (toBytes (rowOf components curve setup sha256 commitments draws entry).nonceScalar) := by
  have : NeZero n := ⟨curve.prime.ne_zero⟩
  exact ⟨_, _, _, hComponents _, hContribution, Schnorr.fromRepr_toBytes curve.order_le _,
    amountPoint_rowOf hCommitments hPoint⟩

variable {rows : List (Row n)}

/- The points of the rows add up, in whatever order. -/
omit [DecidableEq Point] in
theorem sum_points (hCommitments : commitments.RoundTrips)
    {entries : List ((Component × Int) × Nat)}
    (hPoints : ∀ entry ∈ entries, rowPoint curve setup draws entry ≠ 0)
    (hPerm : (entries.map (rowOf components curve setup sha256 commitments draws)).Perm rows) :
    ∃ points,
    (rows.map (fun row => row.commitSer)).mapM (amountPoint curve commitments) = .ok points ∧
      points.sum = Commitments.commit setup.h curve.generator
          (entries.map (fun entry => ((entry.1.2 : Int) : ZMod n))).sum
          (rows.map (fun row => row.nonceScalar)).sum := by
  have hAll :
      ((entries.map (rowOf components curve setup sha256 commitments draws)).map
          (fun row => row.commitSer)).mapM
          (amountPoint curve commitments) =
        .ok (entries.map (rowPoint curve setup draws)) := by
    rw [List.map_map, List.mapM_map]
    exact mapM_of_ok (fun entry hMem => amountPoint_rowOf hCommitments (hPoints entry hMem))
  rcases exists_mapM_of_perm (hPerm.map _) hAll with ⟨points, hMap, hSame⟩
  refine ⟨points, hMap, ?_⟩
  have hNonces :
      (rows.map (fun row => row.nonceScalar)).sum =
        (entries.map (fun entry => draws.nonces entry.2)).sum := by
    rw [← (hPerm.map _).sum_eq, List.map_map]
    rfl
  rw [← hSame.sum_eq, hNonces, ← Commitments.sum_commit]
  rfl

variable {hello : ServerHello} {inputs : List FusionInput} {outputScripts : List (List UInt8)}
variable {plan : FusionTierPlan} {roundPubkey : List UInt8} {blindNoncePoints : List (List UInt8)}

/- Every nonce point gives a request. -/
def NoncesBlind (curve : Curve n Point) (sha256 : List UInt8 → Vector UInt8 32) (draws : Draws n)
    (roundPubkey : List UInt8) (blindNoncePoints : List (List UInt8)) : Prop :=
  ∀ (i : Nat) point, blindNoncePoints[i]? = some point →
    ∀ msg,
      ∃ request,
        BlindSignatureRequest.newWithBlinding curve sha256 roundPubkey point msg
            (draws.blindings i).1 (draws.blindings i).2 = .ok request

/- No nonce cancels the amount it hides. -/
def NoncesHide (setup : Pedersen.Setup curve) (draws : Draws n) (amounts : List Int) : Prop :=
  ∀ (i : Nat) amount,
    amounts[i]? = some amount →
      Commitments.commit setup.h curve.generator ((amount : Int) : ZMod n) (draws.nonces i) ≠ 0

variable {outputs : List FusionOutput}

omit [DecidableEq Point] in
theorem rowPoints_ne_zero {numBlanks : Nat}
    (hHide : NoncesHide setup draws (exactAmounts inputs outputs numBlanks feerate)) :
    ∀ entry ∈ (parts inputs outputs numBlanks feerate).zipIdx,
    rowPoint curve setup draws entry ≠ 0 := by
  rintro ⟨part, i⟩ hMem
  rw [List.mem_zipIdx_iff_getElem?] at hMem
  apply hHide i part.2
  rw [← map_parts, List.getElem?_map, hMem]
  rfl

theorem toUInt64_ofInt_toNat (word : UInt64) :
    (Int64.ofInt (word.toNat : Int)).toUInt64 = word := by
  apply UInt64.toBitVec_inj.mp
  change BitVec.ofInt 64 (word.toNat : Int) = word.toBitVec
  rw [BitVec.ofInt_natCast, BitVec.ofNat_uInt64ToNat]

omit [AddCommGroup Point] [Module (ZMod n) Point] [DecidableEq Point] in
theorem sum_cast_zipIdx (all : List (Component × Int)) (i : Nat) :
    ((all.zipIdx i).map (fun entry => ((entry.1.2 : Int) : ZMod n))).sum =
      (((all.map Prod.snd).sum : Int) : ZMod n) := by
  induction all generalizing i with
  | nil => simp
  | cons part all ih =>
    rw [List.zipIdx_cons, List.map_cons, List.sum_cons, ih, List.map_cons, List.sum_cons,
      Int.cast_add]

variable {excessFee : UInt64}

/- The commitment that is built where nothing overflows. -/
theorem buildRoundCommit_eq {mode : Mode} {numComponents : Nat}
    {entries : List (List UInt8 × Int64)} (hRoom : inputs.length + outputs.length ≤ numComponents)
    (hCount : blindNoncePoints.length = numComponents)
    (hBuilt :
      builtComponents components mode inputs outputs
          (numComponents - inputs.length - outputs.length) feerate = .ok entries)
    (hRows :
      entries.zipIdx.foldlM (addRow components curve setup sha256 commitments draws mode) ([], 0) =
        .ok (rows, Int64.ofInt (excessFee.toNat : Int))) (hExcess : excessFee.toNat < 2 ^ 63)
    (hBlind : NoncesBlind curve sha256 draws roundPubkey blindNoncePoints) :
    ∃ requests,
    buildRoundCommit components curve setup sha256 commitments draws mode inputs outputs
        numComponents feerate roundPubkey blindNoncePoints =
      .ok (roundCommit sha256 draws (sortedRows rows) requests excessFee) := by
  have hRequests :
      ∃ requests,
      ((sortedRows rows).zip blindNoncePoints).zipIdx.mapM
          (blindRequest curve sha256 draws roundPubkey) = .ok requests := by
    apply exists_mapM
    rintro ⟨⟨row, point⟩, i⟩ hMem
    rw [List.mem_zipIdx_iff_getElem?, List.getElem?_zip_eq_some] at hMem
    exact hBlind i point hMem.2 _
  rcases hRequests with ⟨requests, hRequests⟩
  refine ⟨requests, ?_⟩
  unfold buildRoundCommit
  rw [if_neg (Nat.not_lt.mpr hRoom), if_neg (not_not.mpr hCount)]
  dsimp only
  rw [bind_of_ok hBuilt, bind_of_ok hRows]
  dsimp only
  rw [toInt_ofInt ⟨by omega, by omega⟩, if_neg (by omega),
    bind_of_ok hRequests, toUInt64_ofInt_toNat]

/- What the commitment holds is in the order of the rows. -/
omit [AddCommGroup Point] [Module (ZMod n) Point] [DecidableEq Point] in
theorem row_of_columns {requests : List (BlindSignatureRequest n Point)} {i : Nat}
    {compSer commitSer : List UInt8} {proof : Vector UInt8 32 × Vector UInt8 32}
    (hComp : (roundCommit sha256 draws rows requests excessFee).componentsSorted[i]? = some compSer)
    (hCommit :
      (roundCommit sha256 draws rows requests excessFee).playerCommit.initialCommitments[i]? =
        some commitSer)
    (hProof : (roundCommit sha256 draws rows requests excessFee).proofs[i]? = some proof) :
    ∃ row ∈ rows,
    row.compSer = compSer ∧ row.commitSer = commitSer ∧ toBytes row.nonceScalar = proof.2 := by
  unfold roundCommit at hComp hCommit hProof
  dsimp only at hComp hCommit hProof
  rw [List.getElem?_map] at hComp hCommit hProof
  cases hRow : rows[i]? with
  | none =>
    rw [hRow] at hComp
    cases hComp
  | some row =>
    rw [hRow] at hComp hCommit hProof
    refine ⟨row, List.mem_of_getElem? hRow, Option.some.inj hComp, Option.some.inj hCommit, ?_⟩
    rw [← Option.some.inj hProof]

/- Where the inputs fit, both builds commit to the plan. -/
theorem balances_of_fits (hComponents : components.RoundTrips)
    (hCommitments : commitments.RoundTrips)
    (hAccepted : AcceptedInputs hello inputs outputScripts plan)
    (hTxids : ∀ input ∈ inputs, WellFormedTxid input)
    (hCount : blindNoncePoints.length = hello.numComponents.toNat)
    (hBlind : NoncesBlind curve sha256 draws roundPubkey blindNoncePoints)
    (hHide :
      NoncesHide setup draws
        (exactAmounts inputs (plannedOutputs outputScripts plan)
          (hello.numComponents.toNat - inputs.length - (plannedOutputs outputScripts plan).length)
          hello.componentFeerate)) (hFits : FitsSigned hello.componentFeerate inputs)
    (mode : Mode) :
    ∃ built commit,
    Balances components curve setup sha256 commitments draws mode inputs
      (plannedOutputs outputScripts plan) hello.numComponents.toNat hello.componentFeerate
      roundPubkey blindNoncePoints plan.excessFee built commit := by
  have : NeZero n := ⟨curve.prime.ne_zero⟩
  have hKeys := keys_of_accepted hAccepted
  have hScripts : ∀ output ∈ plannedOutputs outputScripts plan, output.scriptpubkey.length = 25 :=
    scripts_plannedOutputs hAccepted.scripts
  have hRoom := hAccepted.count
  rw [List.length_map] at hRoom
  have hLength := length_plannedOutputs hAccepted.pool
  rw [← hLength] at hRoom
  have hExcess := UInt64.le_iff_toNat_le.mp hAccepted.excess_le
  have hMax : maxExcessFee.toNat = 10000 := rfl
  generalize hBlanks : hello.numComponents.toNat - inputs.length -
    (plannedOutputs outputScripts plan).length = numBlanks at hHide
  have hPoints := rowPoints_ne_zero hHide
  have hBuilt :
      builtComponents components mode inputs (plannedOutputs outputScripts plan) numBlanks
          hello.componentFeerate =
        .ok ((parts inputs (plannedOutputs outputScripts plan) numBlanks hello.componentFeerate).map
            (entryOf components)) :=
    builtComponents_eq components hAccepted.feerate_le hKeys hScripts hTxids hFits.1
      (fun output hMem => output_lt hAccepted hFits hMem) mode
  have hRuns := runs_of_fits hAccepted hFits numBlanks
  have hInRange := amounts_inRange hAccepted hFits numBlanks
  have hSum :
      (exactAmounts inputs (plannedOutputs outputScripts plan) numBlanks hello.componentFeerate).sum
          = plan.excessFee.toNat := by
    unfold exactAmounts
    rw [List.append_assoc, List.sum_append, sum_exactAmounts hAccepted]
  have hContribution :
      ∀ part ∈ parts inputs (plannedOutputs outputScripts plan) numBlanks hello.componentFeerate,
        ∀ saltCommitment,
          Blame.componentContribution n { part.1 with saltCommitment } hello.componentFeerate =
            .ok ((part.2 : Int) : ZMod n) :=
    fun part hMem => contribution_eq hAccepted.feerate_le hKeys hScripts hMem
  have hAllParts :=
    map_parts inputs (plannedOutputs outputScripts plan) numBlanks hello.componentFeerate
  have hPartsLength :
      (parts inputs (plannedOutputs outputScripts plan) numBlanks hello.componentFeerate).length =
        hello.numComponents.toNat := by
    unfold parts
    rw [List.length_append, List.length_append, List.length_map, List.length_map,
      List.length_replicate]
    omega
  rw [← hAllParts] at hRuns hInRange hSum
  rw [List.forall_mem_map] at hInRange
  generalize parts inputs (plannedOutputs outputScripts plan) numBlanks hello.componentFeerate = all
    at *
  have hRows :
      ((all.map (entryOf components)).zipIdx).foldlM
          (addRow components curve setup sha256 commitments draws mode) ([], 0) =
        .ok (all.zipIdx.map (rowOf components curve setup sha256 commitments draws),
            Int64.ofInt (plan.excessFee.toNat : Int)) := by
    rw [← hSum, ← zero_add (all.map Prod.snd).sum]
    exact addRows_eq hComponents hInRange hRuns hPoints mode
  rcases
    buildRoundCommit_eq hRoom hCount (by rw [hBlanks]; exact hBuilt) hRows
      (by omega) hBlind with
    ⟨requests, hCommit⟩
  generalize hMade : all.zipIdx.map (rowOf components curve setup sha256 commitments draws) = rows
    at hCommit
  have hPerm :
      (all.zipIdx.map (rowOf components curve setup sha256 commitments draws)).Perm
        (sortedRows rows) := by
    rw [hMade]
    exact (List.mergeSort_perm rows _).symm
  refine
    ⟨all.map (entryOf components),
      roundCommit sha256 draws (sortedRows rows) requests plan.excessFee,
      { builds := by rw [hBlanks]; exact hBuilt
        exact := ?_
        contributes := ?_
        commits := hCommit
        count := ?_
        excess := rfl
        declared := rfl
        opens := ?_
        sums := ?_ }⟩
  · rw [hBlanks, ← hAllParts, List.map_map]
    apply List.map_congr_left
    intro part hMem
    exact toInt_ofInt (hInRange part hMem)
  · intro entry hMem
    rcases List.mem_map.mp hMem with ⟨part, hPart, rfl⟩
    refine ⟨part.1, hComponents _, ?_⟩
    unfold entryOf
    rw [Pedersen.scalarFromI64_eq, toInt_ofInt (hInRange part hPart)]
    exact hContribution part hPart part.1.saltCommitment
  · unfold roundCommit
    rw [List.length_map, ← hPerm.length_eq, List.length_map, List.length_zipIdx, hPartsLength]
  · intro i compSer commitSer proof hComp hSer hProof
    rcases row_of_columns hComp hSer hProof with ⟨row, hMem, rfl, rfl, hNonce⟩
    rw [← hPerm.mem_iff] at hMem
    rcases List.mem_map.mp hMem with ⟨entry, hEntry, rfl⟩
    rw [← hNonce]
    exact opens_rowOf hComponents hCommitments (hPoints entry hEntry)
      (hContribution entry.1 (List.fst_mem_of_mem_zipIdx hEntry) _)
  · rcases sum_points hCommitments hPoints hPerm with ⟨points, hMap, hTotal⟩
    refine ⟨points, _, hMap, ⟨_, rfl, Schnorr.fromRepr_toBytes curve.order_le _⟩, ?_⟩
    rw [hTotal, sum_cast_zipIdx, hSum, Int.cast_natCast]
    rfl

/- An input whose amount is exact in a build that stops at overflows was not wrapped by its cast. -/
theorem value_lt_of_builtInput (hFeerate : feerate ≤ maxComponentFeerate) {input : FusionInput}
    (hKey : input.pubkey.length = 33) {entry : List UInt8 × Int64}
    (hBuilt : builtInput components .panics feerate input = .ok entry)
    (hExact : entry.2.toInt = inputNet feerate input) : input.value.toNat < 2 ^ 63 := by
  have hFee : feeOf feerate 141 ≤ 705 := feeOf_le hFeerate (by decide)
  have hSize : sizeOfInput input.pubkey.length = 141 := by
    rw [hKey]
    rfl
  unfold builtInput at hBuilt
  rcases bind_eq_ok_iff.mp hBuilt with ⟨txid, -, hBuilt⟩
  split at hBuilt
  · cases hBuilt
  rw [hSize, bind_of_ok (componentFee_eq hFeerate (by decide) .panics)] at hBuilt
  rcases bind_eq_ok_iff.mp hBuilt with ⟨amount, hKeep, hBuilt⟩
  have hAmount := (inRange_of_keepSigned (orPanic_eq_ok_iff.mp hKeep)).2
  rw [← Except.ok.inj hBuilt, hAmount, inputNet_eq hKey,
    show (141 : UInt64).toNat = 141 from rfl, toInt_fee hFee, toInt_toInt64] at hExact
  by_contra hWraps
  rw [if_neg hWraps] at hExact
  omega

/- By induction over the inputs. -/
theorem values_lt_of_mapM (hFeerate : feerate ≤ maxComponentFeerate) {inputs : List FusionInput}
    (hKeys : ∀ input ∈ inputs, input.pubkey.length = 33) {entries : List (List UInt8 × Int64)}
    (hBuilt : inputs.mapM (builtInput components .panics feerate) = .ok entries)
    (hExact : entries.map (fun entry => entry.2.toInt) = inputs.map (inputNet feerate)) :
    ∀ input ∈ inputs, input.value.toNat < 2 ^ 63 := by
  induction inputs generalizing entries with
  | nil =>
    intro input hMem
    cases hMem
  | cons input inputs ih =>
    rw [List.forall_mem_cons] at hKeys ⊢
    rw [List.mapM_cons] at hBuilt
    rcases bind_eq_ok_iff.mp hBuilt with ⟨entry, hHere, hBuilt⟩
    rcases bind_eq_ok_iff.mp hBuilt with ⟨rest, hRest, hOk⟩
    cases hOk
    rw [List.map_cons, List.map_cons] at hExact
    rcases List.cons.inj hExact with ⟨hHead, hTail⟩
    exact ⟨value_lt_of_builtInput hFeerate hKeys.1 hHere hHead, ih hKeys.2 hRest hTail⟩

/- What a build that stops at overflows commits to fits. -/
theorem fits_of_balances (hAccepted : AcceptedInputs hello inputs outputScripts plan)
    {built : List (List UInt8 × Int64)} {commit : RoundCommit n Point}
    (hBalances :
        Balances components curve setup sha256 commitments draws .panics inputs outputs
          hello.numComponents.toNat hello.componentFeerate roundPubkey blindNoncePoints excessFee
          built commit) : FitsSigned hello.componentFeerate inputs := by
  have hBuilds := hBalances.builds
  have hExact := hBalances.exact
  have hCommits := hBalances.commits
  constructor
  · unfold builtComponents at hBuilds
    rcases bind_eq_ok_iff.mp hBuilds with ⟨ins, hIns, hBuilds⟩
    rcases bind_eq_ok_iff.mp hBuilds with ⟨outs, -, hBuilds⟩
    rw [← Except.ok.inj hBuilds] at hExact
    unfold exactAmounts at hExact
    rw [List.append_assoc, List.append_assoc, List.map_append] at hExact
    have hLength := length_of_mapM hIns
    exact values_lt_of_mapM hAccepted.feerate_le (keys_of_accepted hAccepted) hIns
        (List.append_inj hExact (by rw [List.length_map, List.length_map, hLength])).1
  · unfold buildRoundCommit at hCommits
    split at hCommits
    · cases hCommits
    split at hCommits
    · cases hCommits
    dsimp only at hCommits
    rw [bind_of_ok hBuilds] at hCommits
    rcases bind_eq_ok_iff.mp hCommits with ⟨state, hRows, -⟩
    have hRuns := runs_of_addRows hRows
    rw [hExact] at hRuns
    unfold exactAmounts at hRuns
    rw [List.append_assoc, runsInRange_append] at hRuns
    intro count
    have hSum := (runsInRange_iff.mp hRuns.1 count).2
    rw [← List.map_take] at hSum
    rw [← zero_add ((inputs.take count).map (inputNet hello.componentFeerate)).sum]
    exact hSum

end Rounds

/-
  A plan that was accepted is balanced by both builds exactly when its inputs fit.
-/
theorem plan_balances_iff {tier : UInt64} {hello : ServerHello} {inputs : List FusionInput}
    {outputScripts : List (List UInt8)} {plans : List FusionTierPlan}
    {indexed : BTreeMap UInt64 FusionTierPlan} {plan : FusionTierPlan} {roundPubkey : List UInt8}
    {blindNoncePoints : List (List UInt8)} (hComponents : components.RoundTrips)
    (hCommitments : commitments.RoundTrips)
    (hAccepts :
      validateAndIndexPlans hello (inputs.map (fun input => input.pubkey))
          (inputs.map (fun input => input.value)) outputScripts plans = .ok indexed)
    (hPlan : indexed.get? tier = some plan) (hTxids : ∀ input ∈ inputs, WellFormedTxid input)
    (hCount : blindNoncePoints.length = hello.numComponents.toNat)
    (hBlind : NoncesBlind curve sha256 draws roundPubkey blindNoncePoints)
    (hHide :
        NoncesHide setup draws
          (exactAmounts inputs (plannedOutputs outputScripts plan)
            (hello.numComponents.toNat - inputs.length - (plannedOutputs outputScripts plan).length)
            hello.componentFeerate)) :
    (∀ mode,
        ∃ built commit,
          Balances components curve setup sha256 commitments draws mode inputs
            (plannedOutputs outputScripts plan) hello.numComponents.toNat hello.componentFeerate
            roundPubkey blindNoncePoints plan.excessFee built commit) ↔
    FitsSigned hello.componentFeerate inputs := by
  have hAccepted := accepted_of_validate hAccepts hPlan
  constructor
  · intro hBalances
    rcases hBalances .panics with ⟨built, commit, hPanics⟩
    exact fits_of_balances hAccepted hPanics
  · intro hFits mode
    exact balances_of_fits hComponents hCommitments hAccepted hTxids hCount hBlind hHide hFits mode

--- Samples

open Schnorr (seven_le seven_prime sevenEncode sevenPoints sevenSha256)

/- A point is read back from either of its encodings. -/
def wideParse (bytes : List UInt8) : Except String (ZMod 7) :=
  if bytes.length = 33 ∨ bytes.length = 65 then .ok ((bytes.getLastD 0).toNat : ZMod 7)
  else .error "point could not be parsed"

def wideSeven : Curve 7 (ZMod 7) :=
  { sevenPoints with
    prime := seven_prime
    order_le := seven_le
    parsePoint := wideParse
    parse_encode := by decide +kernel }

def sevenSetup : Pedersen.Setup wideSeven where
  h := ((2 : Nat) : ZMod 7)
  encodePoint := fun point => (Vector.replicate 64 4).push (UInt8.ofNat point.val)
  h_ne_zero := by decide
  parse_encode := by decide +kernel

def sampleDraws : Draws 7 where
  salts := fun i => Vector.replicate 32 (UInt8.ofNat i)
  nonces := fun _ => 1
  communicationKeys := fun _ => ((4 : Nat) : ZMod 7)
  blindings := fun _ => (1, 1)
  randomNumber := Vector.replicate 32 9
  nonces_ne_zero := fun _ => by decide
  communicationKeys_ne_zero := fun _ => by decide
  blindings_ne_zero := fun _ => by decide

def sampleHello : ServerHello :=
  { tiers := [10000]
    numComponents := 17
    componentFeerate := 1000
    minExcessFee := 10
    maxExcessFee := 10000 }

def sampleInput (value : UInt64) : FusionInput :=
  { prevTxid := String.ofList (List.replicate 64 'a')
    prevIndex := 0
    pubkey := 2 :: List.replicate 32 2
    value }

def sampleScripts : List (List UInt8) :=
  List.replicate 10 ([0x76, 0xa9, 0x14] ++ List.replicate 20 1 ++ [0x88, 0xac])

/- The last output takes what the others leave. -/
def samplePlan (last : UInt64) : FusionTierPlan :=
  { tier := 10000, outputValues := List.replicate 9 10000 ++ [last], excessFee := 10 }

def sampleRoundKey : List UInt8 := (sevenEncode ((3 : Nat) : ZMod 7)).toList

def samplePoints : List (List UInt8) := List.replicate 17 (sevenEncode ((2 : Nat) : ZMod 7)).toList

theorem sampleTxid (value : UInt64) : ∀ input ∈ [sampleInput value], WellFormedTxid input := by
  intro input hMem
  have hHex :
      ∃ txid, hexToBytes (String.ofList (List.replicate 64 'a')) = .ok txid ∧ txid.length = 32 :=
    exists_ok_of_check (by decide +kernel)
  rw [List.mem_singleton.mp hMem]
  exact hHex

theorem samplePoints_blind :
    NoncesBlind wideSeven sevenSha256 sampleDraws sampleRoundKey samplePoints := by
  intro i point hPoint msg
  rw [(List.mem_replicate.mp (List.mem_of_getElem? hPoint)).2]
  have hRoundKey : wideSeven.parsePoint sampleRoundKey = .ok 3 := by decide +kernel
  have hNonce : wideSeven.parsePoint (sevenEncode 2).toList = .ok 2 := by decide +kernel
  have hShifted : BlindSchnorr.blinded wideSeven.generator (3 : ZMod 7) 2 (1 : ZMod 7) 1 ≠ 0 := by
    decide
  exact ⟨_, (Schnorr.newWithBlinding_eq_ok_iff hRoundKey hNonce (by decide)).mpr ⟨hShifted, rfl⟩⟩

theorem hides_of_all {amounts : List Int}
    (hAll :
        amounts.all
            (fun amount =>
              decide
                (Commitments.commit sevenSetup.h wideSeven.generator ((amount : Int) : ZMod 7) 1 ≠
                  0)) = true) : NoncesHide sevenSetup sampleDraws amounts := by
  intro i amount hAmount
  exact of_decide_eq_true (List.all_eq_true.mp hAll amount (List.mem_of_getElem? hAmount))

/- An input of 100491 over the outputs of a plan. -/
theorem plan_balances_sample :
    (∀ mode, ∃ built commit,
      Balances Schema.components wideSeven sevenSetup sevenSha256
        Schema.commitments sampleDraws mode [sampleInput 100491]
        (plannedOutputs sampleScripts (samplePlan 10000)) 17
        1000 sampleRoundKey samplePoints 10 built commit) ↔
      FitsSigned 1000 [sampleInput 100491] := by
  have hAccepts :
      ∃ indexed,
      validateAndIndexPlans sampleHello [(sampleInput 100491).pubkey] [100491] sampleScripts
            [samplePlan 10000] = .ok indexed ∧
        indexed.get? 10000 = some (samplePlan 10000) :=
    exists_ok_of_check (by decide +kernel)
  rcases hAccepts with ⟨indexed, hAccepts, hPlan⟩
  exact plan_balances_iff Schema.components wideSeven sevenSetup
      sevenSha256 Schema.commitments sampleDraws
      Schema.components_roundTrips
      Schema.commitments_roundTrips hAccepts hPlan
      (sampleTxid 100491) rfl samplePoints_blind
      (hides_of_all (by decide +kernel))

/-
  An input of 2 ^ 63 and 491 is accepted, and the build that stops at overflows does not commit to
  its plan.
-/
theorem huge_input_overflows :
    (∃ indexed,
        validateAndIndexPlans sampleHello [(sampleInput 9223372036854776299).pubkey]
              [9223372036854776299] sampleScripts [samplePlan 9223372036854685808] = .ok indexed ∧
          indexed.get? 10000 = some (samplePlan 9223372036854685808)) ∧
    (∀ input ∈ [sampleInput 9223372036854776299], WellFormedTxid input) ∧
    samplePoints.length = 17 ∧
    NoncesBlind wideSeven sevenSha256 sampleDraws sampleRoundKey samplePoints ∧
    NoncesHide sevenSetup sampleDraws
      (exactAmounts [sampleInput 9223372036854776299]
        (plannedOutputs sampleScripts (samplePlan 9223372036854685808)) 6 1000) ∧
    ¬ (∀ mode,
        ∃ built commit,
          Balances Schema.components wideSeven sevenSetup sevenSha256 Schema.commitments sampleDraws
            mode [sampleInput 9223372036854776299]
            (plannedOutputs sampleScripts (samplePlan 9223372036854685808)) 17 1000 sampleRoundKey
            samplePoints 10 built commit) := by
  have hAccepts :
      ∃ indexed,
      validateAndIndexPlans sampleHello [(sampleInput 9223372036854776299).pubkey]
            [9223372036854776299] sampleScripts [samplePlan 9223372036854685808] = .ok indexed ∧
        indexed.get? 10000 = some (samplePlan 9223372036854685808) :=
    exists_ok_of_check (by decide +kernel)
  refine ⟨hAccepts, sampleTxid _, rfl, samplePoints_blind, hides_of_all (by decide +kernel), ?_⟩
  intro hBalances
  rcases hAccepts with ⟨indexed, hAccepts, hPlan⟩
  have hAccepted :
      AcceptedInputs sampleHello [sampleInput 9223372036854776299] sampleScripts
        (samplePlan 9223372036854685808) :=
    accepted_of_validate hAccepts hPlan
  rcases hBalances .panics with ⟨built, commit, hPanics⟩
  have hFits := fits_of_balances hAccepted hPanics
  have hLt := hFits.1 _ List.mem_cons_self
  revert hLt
  decide

end OptnWallet.Fusion
