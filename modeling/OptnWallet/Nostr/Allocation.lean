import Mathlib.Data.Nat.Log
import OptnWallet.Library.Apportionment
import OptnWallet.Nostr.Round

/-
  The values of a peer's outputs.  Only the peer's share of the transaction's bytes is left as a
  fee, and everything else is divided over two to six outputs by random weights.

  Random numbers are drawn one after the other, and number `position` of them is `randomUnit
  position`.

  Main declarations:
    * `Nostr.localFeeShare`
    * `Nostr.planP2pOutputValues`
    * `Nostr.planP2pOutputValues_spec`
-/

--- Plans

namespace OptnWallet.Nostr

open StagedUpdate

open Apportionment (onGrid portions giveRest)

def defaultMinOutput : Int := 10000

def maxOutputsPerPeer : Nat := 6

def maxParticipants : Nat := 20

def maxInputsPerPeer : Nat := 20

def txOverheadBytes : ℚ := 10

def p2pkhOutputBytes : Nat := 34

/- The fee rate is in satoshis for each 1000 bytes. -/
structure P2pOutputPlanOptions where
  inputs : List FusionInputRef
  participantCount : Nat
  feerate : Nat
  minOutput : Option Int
  tier : Option Int

structure P2pOutputPlan where
  values : List Int
  feeShare : Int
deriving DecidableEq

/- A fine grid for small tiers, and a coarse one for large tiers. -/
def quantizationGrid (tier : Int) : Int :=
  if tier ≤ 0 then 1
  else max 100 ⌊(10 ^ Nat.log 10 tier.toNat : ℚ) / 20 + 1 / 2⌋

def maxFeeFussFraction : ℚ := 5 / 1000

def maxFeeFussSats : Int := 500

def isSafeInteger (value : Int) : Bool := value.natAbs < 2 ^ 53

def isHexChar (c : Char) : Bool := ('0' ≤ c ∧ c ≤ '9') ∨ ('a' ≤ c ∧ c ≤ 'f') ∨ ('A' ≤ c ∧ c ≤ 'F')

def isLowerHexChar (c : Char) : Bool := ('0' ≤ c ∧ c ≤ '9') ∨ ('a' ≤ c ∧ c ≤ 'f')

/- A sign byte and 32 bytes, in hexadecimal text. -/
def isCompressedPubkey (pubkey : String) : Bool :=
  (pubkey.toList.take 2 = ['0', '2'] ∨ pubkey.toList.take 2 = ['0', '3']) ∧ pubkey.length = 66 ∧
    pubkey.toList.all isHexChar

def checkedRandom (randomUnit : Nat → ℚ) (position : Nat) : Except String ℚ :=
  if randomUnit position < 0 ∨ 1 ≤ randomUnit position then .error "invalid secure random sample"
  else .ok (randomUnit position)

def inputSize (pubkeyHex : String) : ℚ := 108 + pubkeyHex.length / 2

/- The bytes of a peer, and its part of the overhead. -/
def localBytes (inputs : List FusionInputRef) (outputCount participantCount : Nat) : ℚ :=
  (inputs.map (fun input => inputSize input.pubkey)).sum + outputCount * p2pkhOutputBytes +
    txOverheadBytes / participantCount

def localFeeShare (inputs : List FusionInputRef) (outputCount participantCount feerate : Nat) :
    Int := ⌈localBytes inputs outputCount participantCount * feerate / 1000⌉

namespace P2pOutputPlanOptions

variable (options : P2pOutputPlanOptions)

def minimum : Int := options.minOutput.getD defaultMinOutput

def sumIn : Int := (options.inputs.map FusionInputRef.value).sum

def share (outputCount : Nat) : Int :=
  localFeeShare options.inputs outputCount options.participantCount options.feerate

def check : Except String Unit :=
  if options.participantCount < 2 ∨ maxParticipants < options.participantCount then
    .error "invalid P2P Fusion participant count"
  else if options.feerate < 1 ∨ 100000 < options.feerate then .error "invalid P2P Fusion fee rate"
  else if options.inputs.length < 1 ∨ maxInputsPerPeer < options.inputs.length ∨
      options.inputs.any
        (fun input => !isSafeInteger input.value || input.value ≤ 0 ||
            !isCompressedPubkey input.pubkey) then
    .error "invalid P2P Fusion input set"
  else if !isSafeInteger options.minimum ∨ options.minimum < 546 then
    .error "invalid P2P Fusion minimum output"
  else if !isSafeInteger options.sumIn then .error "P2P Fusion input value overflow"
  else .ok ()

/- The largest number of outputs that can be paid for, or zero. -/
def maxOutputs : Nat :=
  ([6, 5, 4, 3, 2].find?
      (fun count => options.minimum * (count : Nat) ≤ options.sumIn - options.share count)).getD 0

/- The values are positive, so that zero is none of them. -/
def grid : Int :=
  quantizationGrid (options.tier.getD ((options.inputs.map FusionInputRef.value).foldl max 0))

def headroom (outputCount : Nat) : Int :=
  options.sumIn - options.share outputCount - options.minimum * outputCount

def fuzzBudget (outputCount : Nat) : Int :=
  max 0
    (min (min (min ⌊options.share outputCount * maxFeeFussFraction⌋ maxFeeFussSats) options.grid)
      (options.headroom outputCount))

end P2pOutputPlanOptions

/- The noise of the fee, and the position of the next random number. -/
def drawFeeFuzz (randomUnit : Nat → ℚ) (fuzzBudget : Int) : Except String (Int × Nat) :=
  if 0 < fuzzBudget then do
    let sample ← checkedRandom randomUnit 1
    .ok (⌊sample * fuzzBudget⌋, 2)
  else .ok (0, 1)

def drawWeights (randomUnit : Nat → ℚ) (position outputCount : Nat) : Except String (List ℚ) :=
  (List.range outputCount).mapM
    (fun index => do
      let sample ← checkedRandom randomUnit (position + index)
      .ok (sample + 1 / 10))

variable (options : P2pOutputPlanOptions)

def planP2pOutputValues (randomUnit : Nat → ℚ) : Except String P2pOutputPlan := do
  options.check
  if options.maxOutputs < 2 then
    .error ("Selected inputs cannot fund two Fusion outputs plus " ++ "fee.")
  else do
    let counted ← checkedRandom randomUnit 0
    let outputCount := 2 + ⌊counted * (options.maxOutputs - 1)⌋.toNat
    let fuzz ← drawFeeFuzz randomUnit (options.fuzzBudget outputCount)
    let fuzzedFee := options.share outputCount + fuzz.1
    let outputTotal := options.sumIn - fuzzedFee
    let distributable := max 0 (outputTotal - options.minimum * outputCount)
    let weights ← drawWeights randomUnit fuzz.2 outputCount
    let values :=
      (portions options.grid distributable weights).map (fun portion => options.minimum + portion)
    let target ← checkedRandom randomUnit (fuzz.2 + outputCount)
    .ok
      { values := giveRest outputTotal ⌊target * outputCount⌋.toNat values, feeShare := fuzzedFee }

/- Digits are of the first 128 characters. -/
theorem toNat_lt_of_isHexChar {c : Char} (hHex : isHexChar c = true) : c.toNat < 128 := by
  unfold isHexChar at hHex
  rw [decide_eq_true_eq] at hHex
  rcases hHex with ⟨-, hLe⟩ | ⟨-, hLe⟩ | ⟨-, hLe⟩
  · exact lt_of_le_of_lt (UInt32.le_iff_toNat_le.mp hLe) (by decide)
  · exact lt_of_le_of_lt (UInt32.le_iff_toNat_le.mp hLe) (by decide)
  · exact lt_of_le_of_lt (UInt32.le_iff_toNat_le.mp hLe) (by decide)

--- Shares

variable {randomUnit : Nat → ℚ} {position : Nat}

theorem checkedRandom_spec {sample : ℚ} (hDrawn : checkedRandom randomUnit position = .ok sample) :
    sample = randomUnit position ∧ 0 ≤ sample ∧ sample < 1 := by
  unfold checkedRandom at hDrawn
  split at hDrawn
  · cases hDrawn
  · rename_i hRange
    cases hDrawn
    rw [not_or, not_lt, not_le] at hRange
    exact ⟨rfl, hRange⟩

theorem checkedRandom_eq (hNonneg : 0 ≤ randomUnit position) (hLt : randomUnit position < 1) :
    checkedRandom randomUnit position = .ok (randomUnit position) := by
  unfold checkedRandom
  rw [if_neg]
  rw [not_or, not_lt, not_le]
  exact ⟨hNonneg, hLt⟩

theorem sum_inputSize {inputs : List FusionInputRef}
    (hKeys : ∀ input ∈ inputs, input.pubkey.length = 66) :
    (inputs.map (fun input => inputSize input.pubkey)).sum = 141 * (inputs.length : ℚ) := by
  induction inputs with
  | nil => simp
  | cons input inputs ih =>
    rw [List.forall_mem_cons] at hKeys
    rw [List.map_cons, List.sum_cons, ih hKeys.2, List.length_cons]
    unfold inputSize
    rw [hKeys.1]
    push_cast
    ring

theorem localFeeShare_mono (inputs : List FusionInputRef) (participantCount feerate : Nat)
    {fewer more : Nat} (hLe : fewer ≤ more) :
    localFeeShare inputs fewer participantCount feerate ≤
      localFeeShare inputs more participantCount feerate := by
  have hCast : (fewer : ℚ) ≤ more := Nat.cast_le.mpr hLe
  unfold localFeeShare localBytes
  gcongr

--- Options

namespace P2pOutputPlanOptions

variable {options : P2pOutputPlanOptions}

/- What the check admits. -/
structure Checked (options : P2pOutputPlanOptions) : Prop where
  two_le_participants : 2 ≤ options.participantCount
  participants_le : options.participantCount ≤ maxParticipants
  one_le_feerate : 1 ≤ options.feerate
  one_le_inputs : 1 ≤ options.inputs.length
  inputs_le : options.inputs.length ≤ maxInputsPerPeer
  values : ∀ input ∈ options.inputs, 0 < input.value ∧ input.value < 2 ^ 53
  keys : ∀ input ∈ options.inputs, input.pubkey.length = 66
  minimum : 546 ≤ options.minimum

theorem inputs_of_check (hCheck : options.check = .ok ()) :
    ∀ input ∈ options.inputs,
    isSafeInteger input.value = true ∧ 0 < input.value ∧
      isCompressedPubkey input.pubkey = true := by
  unfold check at hCheck
  split at hCheck
  · cases hCheck
  split at hCheck
  · cases hCheck
  split at hCheck
  · cases hCheck
  rename_i hInputs
  intro input hMem
  by_contra hBad
  apply hInputs
  right
  right
  rw [List.any_eq_true]
  refine ⟨input, hMem, ?_⟩
  simp only [Bool.or_eq_true, Bool.not_eq_true', decide_eq_true_eq]
  by_contra hGood
  apply hBad
  simp only [not_or, Bool.not_eq_false, not_le] at hGood
  exact ⟨hGood.1.1, hGood.1.2, hGood.2⟩

theorem sumIn_of_check (hCheck : options.check = .ok ()) : isSafeInteger options.sumIn = true := by
  unfold check at hCheck
  split at hCheck
  · cases hCheck
  split at hCheck
  · cases hCheck
  split at hCheck
  · cases hCheck
  split at hCheck
  · cases hCheck
  split at hCheck
  · cases hCheck
  rename_i hSum
  simpa using hSum

theorem checked_of_check (hCheck : options.check = .ok ()) : options.Checked := by
  have hEach := inputs_of_check hCheck
  unfold check at hCheck
  split at hCheck
  · cases hCheck
  rename_i hParticipants
  split at hCheck
  · cases hCheck
  rename_i hFeerate
  split at hCheck
  · cases hCheck
  rename_i hInputs
  split at hCheck
  · cases hCheck
  rename_i hMinimum
  rw [not_or, not_lt, not_lt] at hParticipants hFeerate
  rw [not_or, not_or, not_lt, not_lt] at hInputs
  rw [not_or, not_lt] at hMinimum
  constructor
  · exact hParticipants.1
  · exact hParticipants.2
  · exact hFeerate.1
  · exact hInputs.1
  · exact hInputs.2.1
  · intro input hMem
    have hSafe := (hEach input hMem).1
    have hPos := (hEach input hMem).2.1
    unfold isSafeInteger at hSafe
    rw [decide_eq_true_eq] at hSafe
    exact ⟨hPos, by omega⟩
  · intro input hMem
    have hKey := (hEach input hMem).2.2
    unfold isCompressedPubkey at hKey
    rw [decide_eq_true_eq] at hKey
    exact hKey.2.1
  · exact hMinimum.2

/- A number of outputs that the inputs pay for. -/
structure Affordable (options : P2pOutputPlanOptions) (count : Nat) : Prop where
  two_le : 2 ≤ count
  le_six : count ≤ 6
  funded : options.minimum * (count : Nat) ≤ options.sumIn - options.share count

theorem Affordable.of_le (hMinimum : 0 ≤ options.minimum) {fewer more : Nat}
    (hMore : options.Affordable more) (hTwo : 2 ≤ fewer) (hLe : fewer ≤ more) :
    options.Affordable fewer := by
  have hCast : ((fewer : Nat) : Int) ≤ (more : Nat) := Int.ofNat_le.mpr hLe
  have hShare : options.share fewer ≤ options.share more :=
    localFeeShare_mono options.inputs options.participantCount options.feerate hLe
  have hProduct := mul_le_mul_of_nonneg_left hCast hMinimum
  have hFunded := hMore.funded
  exact ⟨hTwo, le_trans hLe hMore.le_six, by omega⟩

theorem affordable_maxOutputs (hTwo : 2 ≤ options.maxOutputs) :
    options.Affordable options.maxOutputs := by
  unfold maxOutputs at hTwo ⊢
  cases
    hFind :
      [6, 5, 4, 3, 2].find?
        (fun count => options.minimum * ((count : Nat) : Int) ≤
            options.sumIn - options.share count) with
  | none =>
    rw [hFind] at hTwo
    cases hTwo
  | some count =>
    have hFunded := List.find?_some hFind
    have hMem := List.mem_of_find?_eq_some hFind
    rw [decide_eq_true_eq] at hFunded
    have hRange : 2 ≤ count ∧ count ≤ 6 := by
      simp only [List.mem_cons, List.not_mem_nil, or_false] at hMem
      omega
    exact ⟨hRange.1, hRange.2, hFunded⟩

/- The larger numbers are tried first. -/
theorem Affordable.le_maxOutputs {count : Nat} (hCount : options.Affordable count) :
    count ≤ options.maxOutputs := by
  have hMem : count ∈ [6, 5, 4, 3, 2] := by
    have hTwo := hCount.two_le
    have hSix := hCount.le_six
    simp only [List.mem_cons, List.not_mem_nil, or_false]
    omega
  have hFunded := decide_eq_true hCount.funded
  unfold maxOutputs
  cases
    hFind :
      [6, 5, 4, 3, 2].find?
        (fun count => options.minimum * ((count : Nat) : Int) ≤
            options.sumIn - options.share count) with
  | none => exact absurd hFunded (List.find?_eq_none.mp hFind count hMem)
  | some found =>
    rw [List.find?_eq_some_iff_append] at hFind
    rcases hFind with ⟨-, tried, others, hList, hTried⟩
    have hSorted : [6, 5, 4, 3, 2].Pairwise (fun a b : Nat => b < a) := by
      decide
    rw [hList] at hSorted hMem
    rw [Option.getD_some]
    rcases List.mem_append.mp hMem with hIn | hIn
    · have hNot := hTried count hIn
      rw [hFunded] at hNot
      cases hNot
    · rcases List.mem_cons.mp hIn with rfl | hIn
      · exact le_refl count
      · have hAfter := (List.pairwise_append.mp hSorted).2.1
        exact (List.rel_of_pairwise_cons hAfter hIn).le

end P2pOutputPlanOptions

--- What Is Planned

open P2pOutputPlanOptions

/-
  A plan of the options: the number of its values can be paid for, none of them is too small, they
  take what the fee leaves of the inputs, and the noise of the fee is small.
-/
structure Planned (options : P2pOutputPlanOptions) (plan : P2pOutputPlan) : Prop where
  checked : options.Checked
  affordable : options.Affordable plan.values.length
  least : ∀ value ∈ plan.values, options.minimum ≤ value
  total : plan.values.sum + plan.feeShare = options.sumIn
  share_le : options.share plan.values.length ≤ plan.feeShare
  fee_le :
    plan.feeShare ≤ options.share plan.values.length +
        max 0 ⌊options.share plan.values.length * maxFeeFussFraction⌋

theorem grid_pos : 0 < options.grid := by
  unfold P2pOutputPlanOptions.grid quantizationGrid
  split
  · exact Int.one_pos
  · exact lt_of_lt_of_le (by decide) (le_max_left _ _)

theorem drawFeeFuzz_spec {budget : Int} {fuzz : Int × Nat}
    (hDrawn : drawFeeFuzz randomUnit budget = .ok fuzz) : 0 ≤ fuzz.1 ∧ fuzz.1 ≤ max 0 budget := by
  unfold drawFeeFuzz at hDrawn
  split at hDrawn
  · rename_i hPos
    rw [bind_eq_ok_iff] at hDrawn
    rcases hDrawn with ⟨sample, hSample, hDrawn⟩
    cases hDrawn
    rcases checkedRandom_spec hSample with ⟨-, hNonneg, hLt⟩
    have hCast : (0 : ℚ) < budget := Int.cast_pos.mpr hPos
    refine ⟨?_, le_trans ?_ (le_max_right 0 budget)⟩
    · exact Int.floor_nonneg.mpr (mul_nonneg hNonneg hCast.le)
    · apply Int.floor_le_iff.mpr
      have hBelow := mul_lt_of_lt_one_left hCast hLt
      linarith
  · cases hDrawn
    exact ⟨le_refl 0, le_max_left 0 budget⟩

theorem drawWeights_spec {outputCount : Nat} {weights : List ℚ}
    (hDrawn : drawWeights randomUnit position outputCount = .ok weights) :
    weights.length = outputCount ∧ ∀ weight ∈ weights, 0 < weight := by
  unfold drawWeights at hDrawn
  constructor
  · rw [length_of_mapM hDrawn, List.length_range]
  · intro weight hMem
    rcases (mem_of_mapM hDrawn).mp hMem with ⟨index, -, hOne⟩
    rw [bind_eq_ok_iff] at hOne
    rcases hOne with ⟨sample, hSample, hOne⟩
    cases hOne
    have hNonneg := (checkedRandom_spec hSample).2.1
    linarith

/- A part of a number is at most one below it. -/
theorem floor_part {sample : ℚ} (hNonneg : 0 ≤ sample) (hLt : sample < 1) (count : Nat) :
    ⌊sample * (count : ℚ)⌋.toNat ≤ count - 1 := by
  rcases Nat.eq_zero_or_pos count with rfl | hPos
  · simp
  · have hCast : (0 : ℚ) < count := Nat.cast_pos.mpr hPos
    have hBelow : ⌊sample * (count : ℚ)⌋ < (count : Nat) := by
      apply Int.floor_lt.mpr
      rw [Int.cast_natCast]
      exact mul_lt_of_lt_one_left hCast hLt
    have hFloor : 0 ≤ ⌊sample * (count : ℚ)⌋ := Int.floor_nonneg.mpr (mul_nonneg hNonneg hCast.le)
    omega

theorem fuzzBudget_le (outputCount : Nat) :
    max 0 (options.fuzzBudget outputCount) ≤ max 0 (options.headroom outputCount) ∧
    max 0 (options.fuzzBudget outputCount) ≤
      max 0 ⌊options.share outputCount * maxFeeFussFraction⌋ := by
  unfold P2pOutputPlanOptions.fuzzBudget
  constructor
  · omega
  · omega

theorem sum_map_add (least : Int) (parts : List Int) :
    (parts.map (fun part => least + part)).sum = least * parts.length + parts.sum := by
  induction parts with
  | nil => simp
  | cons part parts ih =>
    rw [List.map_cons, List.sum_cons, ih, List.sum_cons, List.length_cons]
    push_cast
    ring

/- What is drawn once the number of outputs is known. -/
theorem planned_of_drawn {options : P2pOutputPlanOptions} (hChecked : options.Checked)
    {outputCount : Nat} (hAffordable : options.Affordable outputCount) {fuzz distributable : Int}
    (hFuzz : 0 ≤ fuzz ∧ fuzz ≤ max 0 (options.fuzzBudget outputCount))
    (hDistributable :
        distributable =
          options.sumIn - (options.share outputCount + fuzz) - options.minimum * outputCount)
    {weights : List ℚ} (hLength : weights.length = outputCount)
    (hWeights : ∀ weight ∈ weights, 0 < weight) {target : Nat} (hTarget : target < outputCount) :
    Planned options
      { values :=
          giveRest (options.sumIn - (options.share outputCount + fuzz)) target
            ((portions options.grid distributable weights).map
              (fun portion => options.minimum + portion))
        feeShare := options.share outputCount + fuzz } := by
  have hGrid := grid_pos options
  have hTwo := hAffordable.two_le
  have hFunded := hAffordable.funded
  have hBudget := fuzzBudget_le options outputCount
  have hHeadroom :
      options.headroom outputCount =
        options.sumIn - options.share outputCount - options.minimum * outputCount :=
    rfl
  have hRest : 0 ≤ distributable := by omega
  have hPositive : weights.sum ≠ 0 := by
    have hNonempty : weights ≠ [] := by
      intro hNil
      rw [hNil, List.length_nil] at hLength
      omega
    exact (List.sum_pos weights hWeights hNonempty).ne'
  have hParts : (portions options.grid distributable weights).sum ≤ distributable :=
    Apportionment.sum_portions_le hGrid hPositive
  have hPartsLength : (portions options.grid distributable weights).length = outputCount := by
    unfold portions
    rw [List.length_map, hLength]
  have hValues := sum_map_add options.minimum (portions options.grid distributable weights)
  rw [hPartsLength] at hValues
  have hValuesLength :
      (giveRest (options.sumIn - (options.share outputCount + fuzz)) target
        ((portions options.grid distributable weights).map
          (fun portion => options.minimum + portion))).length =
        outputCount := by
    unfold giveRest
    rw [List.length_modify, List.length_map, hPartsLength]
  constructor
  · exact hChecked
  · rw [hValuesLength]
    exact hAffordable
  · apply Apportionment.le_of_mem_giveRest
    · omega
    · intro value hMem
      rw [List.mem_map] at hMem
      rcases hMem with ⟨portion, hPortion, rfl⟩
      have hNonneg :=
        Apportionment.portions_nonneg hGrid hRest
          (fun weight hWeight => (hWeights weight hWeight).le) portion hPortion
      omega
  · dsimp only
    rw [Apportionment.sum_giveRest]
    · ring
    · rw [List.length_map, hPartsLength]
      exact hTarget
  · dsimp only
    rw [hValuesLength]
    omega
  · dsimp only
    rw [hValuesLength]
    omega

theorem planP2pOutputValues_spec {options : P2pOutputPlanOptions} {plan : P2pOutputPlan}
    (hPlan : planP2pOutputValues options randomUnit = .ok plan) : Planned options plan := by
  unfold planP2pOutputValues at hPlan
  rw [bind_eq_ok_iff] at hPlan
  rcases hPlan with ⟨done, hCheck, hPlan⟩
  have hChecked := checked_of_check hCheck
  split at hPlan
  · cases hPlan
  rename_i hFew
  rw [not_lt] at hFew
  rw [bind_eq_ok_iff] at hPlan
  rcases hPlan with ⟨counted, hCounted, hPlan⟩
  rw [bind_eq_ok_iff] at hPlan
  rcases hPlan with ⟨fuzz, hFuzz, hPlan⟩
  rw [bind_eq_ok_iff] at hPlan
  rcases hPlan with ⟨weights, hWeights, hPlan⟩
  rw [bind_eq_ok_iff] at hPlan
  rcases hPlan with ⟨target, hTarget, hPlan⟩
  cases hPlan
  rcases checkedRandom_spec hCounted with ⟨-, hNonneg, hLt⟩
  rcases checkedRandom_spec hTarget with ⟨-, hFrom, hTo⟩
  have hCast : (options.maxOutputs : ℚ) - 1 = ((options.maxOutputs - 1 : Nat) : ℚ) := by
    rw [Nat.cast_sub (by omega), Nat.cast_one]
  have hPart := floor_part hNonneg hLt (options.maxOutputs - 1)
  rw [← hCast] at hPart
  have hAffordable : options.Affordable (2 + ⌊counted * ((options.maxOutputs : ℚ) - 1)⌋.toNat) :=
    (affordable_maxOutputs hFew).of_le
      (le_trans (by decide) hChecked.minimum)
      (Nat.le_add_right 2 _) (by omega)
  revert hAffordable hFuzz hWeights hTarget
  generalize 2 + ⌊counted * ((options.maxOutputs : ℚ) - 1)⌋.toNat = outputCount
  intro hFuzz hWeights hTarget hAffordable
  have hNoise := drawFeeFuzz_spec hFuzz
  have hDrawn := drawWeights_spec hWeights
  have hChosen := floor_part hFrom hTo outputCount
  have hTwo := hAffordable.two_le
  have hFunded := hAffordable.funded
  have hBudget := fuzzBudget_le options outputCount
  have hHeadroom :
      options.headroom outputCount =
        options.sumIn - options.share outputCount - options.minimum * outputCount :=
    rfl
  apply planned_of_drawn hChecked hAffordable hNoise (max_eq_right (by omega)) hDrawn.1 hDrawn.2
  omega

end OptnWallet.Nostr
