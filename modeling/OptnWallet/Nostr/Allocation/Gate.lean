import OptnWallet.Nostr.Allocation

/-
  The plans of honest peers at the signing gate.  Each peer rounds its share of the fee up, and
  the gate allows three times the rounded fee of the whole transaction.  Shares of less than half
  a satoshi come to more than that when there are many of them, which only happens at the least
  fee rate.

  Main declarations:
    * `Nostr.HonestPlansPass`
    * `Nostr.honest_plans_pass_iff`
-/

--- Rounds of Planned Contributions

namespace OptnWallet.Nostr

open StagedUpdate P2pOutputPlanOptions

/- What a peer brings to a round.  The script of each output is a fresh one. -/
structure Peer where
  inputs : List FusionInputRef
  minOutput : Option Int
  tier : Option Int
  scripts : Nat → String

def Peer.options (peer : Peer) (participantCount feerate : Nat) : P2pOutputPlanOptions :=
  { inputs := peer.inputs
    participantCount
    feerate
    minOutput := peer.minOutput
    tier := peer.tier }

def Peer.contribution (peer : Peer) (plan : P2pOutputPlan) : PeerContribution :=
  { inputs := peer.inputs
    outputs :=
      plan.values.zipIdx.map
        (fun entry => { script := peer.scripts entry.2, value := entry.1 }) }

/- A script of 25 bytes, in hexadecimal text. -/
def Peer.PaysToPubkeyHash (peer : Peer) : Prop := ∀ index, (peer.scripts index).length = 50

/- Some random numbers lead to the contribution. -/
def Contributed (participantCount feerate : Nat) (peer : Peer) (contribution : PeerContribution) :
    Prop :=
  ∃ randomUnit plan,
    planP2pOutputValues (peer.options participantCount feerate) randomUnit = .ok plan ∧
      contribution = peer.contribution plan

/- Values and the fee of a plan. -/
structure WellPlanned (options : P2pOutputPlanOptions) (plan : P2pOutputPlan) : Prop where
  two_le : 2 ≤ plan.values.length
  le_six : plan.values.length ≤ 6
  least : ∀ value ∈ plan.values, options.minimum ≤ value
  total : plan.values.sum + plan.feeShare = options.sumIn

/- Every plan is a good one, and what is assembled of the plans of all peers passes for each of
   them. -/
structure HonestPlansPass (peers : List Peer) (feerate : Nat) : Prop where
  planned :
    ∀ peer ∈ peers,
    ∀ randomUnit plan,
      planP2pOutputValues (peer.options peers.length feerate) randomUnit = .ok plan →
        WellPlanned (peer.options peers.length feerate) plan
  passes :
    ∀ contributions tx,
    List.Forall₂ (Contributed peers.length feerate) peers contributions →
      assembleFusionTx contributions = .ok tx →
      ∀ mine ∈ contributions, (verifyFusionSafety tx mine feerate).ok = true

/- The peer may choose this number of outputs. -/
def CanPlan (participantCount feerate : Nat) (peer : Peer) (count : Nat) : Prop :=
  (peer.options participantCount feerate).check = .ok () ∧
    (peer.options participantCount feerate).Affordable count

/- The bytes of the inputs and outputs of a peer. -/
def peerBytes (peer : Peer) (count : Nat) : ℚ := 141 * peer.inputs.length + 34 * count

/- The fee of the whole, which is rounded up once. -/
def wholeFee (feerate : Nat) (peers : List Peer) (counts : List Nat) : Int :=
  ⌈(10 + (List.zipWith peerBytes peers counts).sum) * feerate / 1000⌉

/- The shares of the peers, each of them rounded up. -/
def sharedFee (participantCount feerate : Nat) (peers : List Peer) (counts : List Nat) : Int :=
  (List.zipWith (fun peer count => (peer.options participantCount feerate).share count) peers
    counts).sum

--- One Share

/- The share of a peer before it is rounded. -/
def exactShare (participantCount feerate : Nat) (peer : Peer) (count : Nat) : ℚ :=
  (peerBytes peer count + 10 / participantCount) * feerate / 1000

variable {participantCount feerate : Nat} {peer : Peer}

theorem share_eq_ceil (hChecked : (peer.options participantCount feerate).Checked) (count : Nat) :
    (peer.options participantCount feerate).share count =
      ⌈exactShare participantCount feerate peer count⌉ := by
  have hSum := sum_inputSize hChecked.keys
  unfold share localFeeShare localBytes
  rw [hSum]
  unfold exactShare peerBytes txOverheadBytes p2pkhOutputBytes Peer.options
  congr 1
  push_cast
  ring

variable {count : Nat}

/- From the fee rate of two on, a share is no less than two fifths of a satoshi. -/
theorem two_fifths_le_exactShare (hChecked : (peer.options participantCount feerate).Checked)
    (hFeerate : 2 ≤ feerate) (hTwo : 2 ≤ count) :
    2 / 5 ≤ exactShare participantCount feerate peer count := by
  have hInputs : (1 : ℚ) ≤ peer.inputs.length := Nat.one_le_cast.mpr hChecked.one_le_inputs
  have hCount : (2 : ℚ) ≤ count := by exact_mod_cast hTwo
  have hRate : (2 : ℚ) ≤ feerate := by exact_mod_cast hFeerate
  have hOverhead : (0 : ℚ) ≤ 10 / participantCount := by positivity
  have hBytes : (200 : ℚ) ≤ peerBytes peer count + 10 / participantCount := by
    unfold peerBytes
    linarith
  have hProduct : (200 : ℚ) * 2 ≤ (peerBytes peer count + 10 / participantCount) * feerate :=
    mul_le_mul hBytes hRate (by norm_num) (by linarith)
  unfold exactShare
  linarith

/- The noise is less than what the rounding leaves. -/
theorem fee_le_three {x : ℚ} (hLeast : 2 / 5 ≤ x) {fee : Int}
    (hFee : fee ≤ ⌈x⌉ + max 0 ⌊(⌈x⌉ : ℚ) * maxFeeFussFraction⌋) : (fee : ℚ) ≤ 3 * x := by
  have hPos : 0 < ⌈x⌉ := Int.ceil_pos.mpr (by linarith)
  have hCast : (0 : ℚ) < ⌈x⌉ := Int.cast_pos.mpr hPos
  have hNoise : ((max 0 ⌊(⌈x⌉ : ℚ) * maxFeeFussFraction⌋ : Int) : ℚ) ≤ ⌈x⌉ * (5 / 1000) := by
    rw [max_eq_right]
    · exact Int.floor_le _
    · apply Int.floor_nonneg.mpr
      unfold maxFeeFussFraction
      positivity
  have hFeeCast : (fee : ℚ) ≤ ⌈x⌉ + ⌈x⌉ * (5 / 1000) := by
    have hHere : (fee : ℚ) ≤ (⌈x⌉ + max 0 ⌊(⌈x⌉ : ℚ) * maxFeeFussFraction⌋ : Int) :=
      Int.cast_le.mpr hFee
    rw [Int.cast_add] at hHere
    linarith
  by_cases hSmall : x ≤ 1
  · have hOne : ⌈x⌉ ≤ 1 := Int.ceil_le.mpr (by simpa using hSmall)
    have hOneCast : (⌈x⌉ : ℚ) ≤ 1 := by exact_mod_cast hOne
    linarith
  · have hLt := Int.ceil_lt_add_one x
    linarith

/- At the least fee rate a share has no noise. -/
theorem fee_eq_share (hChecked : (peer.options participantCount 1).Checked) (hSix : count ≤ 6)
    {fee : Int} (hLe : (peer.options participantCount 1).share count ≤ fee)
    (hFee :
        fee ≤ (peer.options participantCount 1).share count +
            max 0 ⌊((peer.options participantCount 1).share count : ℚ) * maxFeeFussFraction⌋) :
    fee = (peer.options participantCount 1).share count := by
  have hInputs : (peer.inputs.length : ℚ) ≤ 20 := by exact_mod_cast hChecked.inputs_le
  have hCount : (count : ℚ) ≤ 6 := by exact_mod_cast hSix
  have hTwo : (2 : ℚ) ≤ participantCount := by exact_mod_cast hChecked.two_le_participants
  have hOverhead : (10 : ℚ) / participantCount ≤ 5 := by
    rw [div_le_iff₀ (by linarith)]
    linarith
  have hShare : (peer.options participantCount 1).share count ≤ 4 := by
    rw [share_eq_ceil hChecked]
    apply Int.ceil_le.mpr
    unfold exactShare peerBytes
    push_cast
    linarith
  have hShareCast : ((peer.options participantCount 1).share count : ℚ) ≤ 4 := by
    exact_mod_cast hShare
  have hFloor : ⌊((peer.options participantCount 1).share count : ℚ) * maxFeeFussFraction⌋ ≤ 0 := by
    apply Int.le_of_lt_add_one
    apply Int.floor_lt.mpr
    unfold maxFeeFussFraction
    push_cast
    linarith
  omega

--- One Contribution

/- What a contribution leaves as a fee. -/
def paid (contribution : PeerContribution) : Int :=
  (contribution.inputs.map FusionInputRef.value).sum -
    (contribution.outputs.map FusionOutputRef.value).sum

def contributedBytes (contribution : PeerContribution) : ℚ :=
  (contribution.inputs.map (fun i => sizeOfInput i.pubkey.length)).sum +
    (contribution.outputs.map (fun o => sizeOfOutput o.script.length)).sum

/- The number of outputs is one that can be paid for, and the fee is the share with little noise. -/
structure Fair (participantCount feerate : Nat) (peer : Peer) (contribution : PeerContribution) :
    Prop where
  checked : (peer.options participantCount feerate).Checked
  canPlan : CanPlan participantCount feerate peer contribution.outputs.length
  share_le :
    (peer.options participantCount feerate).share contribution.outputs.length ≤ paid contribution
  paid_le :
    paid contribution ≤ (peer.options participantCount feerate).share contribution.outputs.length +
        max 0 ⌊((peer.options participantCount feerate).share contribution.outputs.length : ℚ) *
          maxFeeFussFraction⌋
  bytes : contributedBytes contribution = peerBytes peer contribution.outputs.length

variable {options : P2pOutputPlanOptions} {randomUnit : Nat → ℚ}

theorem check_of_plan {plan : P2pOutputPlan}
    (hPlan : planP2pOutputValues options randomUnit = .ok plan) : options.check = .ok () := by
  unfold planP2pOutputValues at hPlan
  rw [bind_eq_ok_iff] at hPlan
  rcases hPlan with ⟨done, hCheck, -⟩
  exact hCheck

theorem sum_sizeOfOutput {outputs : List FusionOutputRef}
    (hScripts : ∀ o ∈ outputs, o.script.length = 50) :
    (outputs.map (fun o => sizeOfOutput o.script.length)).sum = 34 * (outputs.length : ℚ) := by
  induction outputs with
  | nil => simp
  | cons o outputs ih =>
    rw [List.forall_mem_cons] at hScripts
    rw [List.map_cons, List.sum_cons, ih hScripts.2, List.length_cons, hScripts.1]
    unfold sizeOfOutput
    push_cast
    ring

theorem contribution_outputs (peer : Peer) (plan : P2pOutputPlan) :
    (peer.contribution plan).outputs.length = plan.values.length ∧
    (peer.contribution plan).outputs.map FusionOutputRef.value = plan.values := by
  unfold Peer.contribution
  constructor
  · simp
  · rw [List.map_map]
    have hFst :
        FusionOutputRef.value ∘
            (fun entry : Int × Nat => { script := peer.scripts entry.2, value := entry.1 }) =
          Prod.fst :=
      rfl
    rw [hFst, List.zipIdx_map_fst]

theorem fair_of_contributed (hScripts : peer.PaysToPubkeyHash) {contribution : PeerContribution}
    (hContributed : Contributed participantCount feerate peer contribution) :
    Fair participantCount feerate peer contribution := by
  rcases hContributed with ⟨randomUnit, plan, hPlan, rfl⟩
  have hPlanned := planP2pOutputValues_spec hPlan
  have hChecked := hPlanned.checked
  have hTotal := hPlanned.total
  rcases contribution_outputs peer plan with ⟨hLength, hValues⟩
  have hPaid : paid (peer.contribution plan) = plan.feeShare := by
    unfold paid
    rw [hValues]
    change (peer.options participantCount feerate).sumIn - plan.values.sum = plan.feeShare
    omega
  constructor
  · exact hChecked
  · rw [hLength]
    exact ⟨check_of_plan hPlan, hPlanned.affordable⟩
  · rw [hLength, hPaid]
    exact hPlanned.share_le
  · rw [hLength, hPaid]
    exact hPlanned.fee_le
  · have hFifty : ∀ o ∈ (peer.contribution plan).outputs, o.script.length = 50 := by
      intro o hMem
      unfold Peer.contribution at hMem
      rw [List.mem_map] at hMem
      rcases hMem with ⟨entry, -, rfl⟩
      exact hScripts entry.2
    have hInputs := sum_inputSize hChecked.keys
    unfold contributedBytes peerBytes
    rw [sum_sizeOfOutput hFifty]
    exact congrArg (fun bytes : ℚ => bytes + _) hInputs

--- All Contributions

/- The numbers of outputs that were chosen. -/
def outputCounts (contributions : List PeerContribution) : List Nat :=
  contributions.map (fun contribution => contribution.outputs.length)

variable {peers : List Peer} {contributions : List PeerContribution}

section

variable (hFair : List.Forall₂ (Fair participantCount feerate) peers contributions)
include hFair

theorem canPlan_counts :
    List.Forall₂ (CanPlan participantCount feerate) peers (outputCounts contributions) := by
  unfold outputCounts
  rw [List.forall₂_map_right_iff]
  exact hFair.imp (fun _ _ hHere => hHere.canPlan)

theorem sum_contributedBytes :
    (contributions.map contributedBytes).sum =
      (List.zipWith peerBytes peers (outputCounts contributions)).sum := by
  induction hFair with
  | nil => rfl
  | cons hHere hRest ih =>
    unfold outputCounts at ih ⊢
    rw [List.map_cons, List.sum_cons, ih, hHere.bytes, List.map_cons, List.zipWith_cons_cons,
      List.sum_cons]

theorem sharedFee_le_paid :
    sharedFee participantCount feerate peers (outputCounts contributions) ≤
      (contributions.map paid).sum := by
  induction hFair with
  | nil => exact le_refl 0
  | cons hHere hRest ih =>
    unfold sharedFee outputCounts at ih ⊢
    rw [List.map_cons, List.map_cons, List.zipWith_cons_cons, List.sum_cons, List.sum_cons]
    exact add_le_add hHere.share_le ih

end

/- The shares before they are rounded. -/
def exactShares (participantCount feerate : Nat) (peers : List Peer) (counts : List Nat) : List ℚ :=
  List.zipWith (exactShare participantCount feerate) peers counts

theorem sharedFee_eq (hFair : List.Forall₂ (Fair participantCount feerate) peers contributions) :
    sharedFee participantCount feerate peers (outputCounts contributions) =
      ((exactShares participantCount feerate peers (outputCounts contributions)).map
        Int.ceil).sum := by
  induction hFair with
  | nil => rfl
  | cons hHere hRest ih =>
    unfold sharedFee exactShares outputCounts at ih ⊢
    rw [List.map_cons, List.zipWith_cons_cons, List.zipWith_cons_cons, List.map_cons, List.sum_cons,
      List.sum_cons, ih, share_eq_ceil hHere.checked]

theorem paid_le_three (hFeerate : 2 ≤ feerate)
    (hFair : List.Forall₂ (Fair participantCount feerate) peers contributions) :
    (((contributions.map paid).sum : Int) : ℚ) ≤
      3 * (exactShares participantCount feerate peers (outputCounts contributions)).sum := by
  induction hFair with
  | nil => simp [exactShares]
  | cons hHere hRest ih =>
    have hLeast := two_fifths_le_exactShare hHere.checked hFeerate hHere.canPlan.2.two_le
    have hFee := hHere.paid_le
    rw [share_eq_ceil hHere.checked] at hFee
    have hThree := fee_le_three hLeast hFee
    unfold exactShares outputCounts at ih ⊢
    rw [List.map_cons, List.map_cons, List.zipWith_cons_cons, List.sum_cons, List.sum_cons,
      Int.cast_add]
    linarith

theorem paid_eq_sharedFee (hFair : List.Forall₂ (Fair participantCount 1) peers contributions) :
    (contributions.map paid).sum =
      sharedFee participantCount 1 peers (outputCounts contributions) := by
  induction hFair with
  | nil => rfl
  | cons hHere hRest ih =>
    have hFee := fee_eq_share hHere.checked hHere.canPlan.2.le_six hHere.share_le hHere.paid_le
    unfold sharedFee outputCounts at ih ⊢
    rw
      [List.map_cons, List.map_cons, List.zipWith_cons_cons, List.sum_cons, List.sum_cons, ih, hFee]

variable {counts : List Nat}

/- The parts of the overhead add up to all of it. -/
theorem sum_exactShares (hLength : peers.length = counts.length) :
    (exactShares participantCount feerate peers counts).sum =
      ((List.zipWith peerBytes peers counts).sum + peers.length * (10 / participantCount)) *
        feerate / 1000 := by
  induction peers generalizing counts with
  | nil =>
    unfold exactShares
    simp
  | cons peer peers ih =>
    cases counts with
    | nil => cases hLength
    | cons count counts =>
      have hRest := ih (Nat.succ.inj hLength)
      unfold exactShares at hRest ⊢
      rw [List.zipWith_cons_cons, List.zipWith_cons_cons, List.sum_cons, List.sum_cons, hRest,
        List.length_cons]
      unfold exactShare
      push_cast
      ring

theorem wholeFee_eq (hLength : peers.length = counts.length) (hPeers : peers ≠ []) :
    wholeFee feerate peers counts = ⌈(exactShares peers.length feerate peers counts).sum⌉ := by
  have hPos : (peers.length : ℚ) ≠ 0 := by
    rw [Nat.cast_ne_zero]
    exact fun hZero => hPeers (List.length_eq_zero_iff.mp hZero)
  unfold wholeFee
  rw [sum_exactShares hLength, mul_div_cancel₀ _ hPos, add_comm]

--- The Assembled Transaction

variable {tx : AssembledFusionTx}

section

variable (hAssemble : assembleFusionTx contributions = .ok tx)
include hAssemble

theorem fee_of_assembled : totalIn tx - totalOut tx = (contributions.map paid).sum := by
  rcases assembleFusionTx_spec hAssemble with ⟨-, hInputs, hOutputs⟩
  have hSums :
      ∀ cs : List PeerContribution,
      ((cs.flatMap PeerContribution.inputs).map FusionInputRef.value).sum -
          ((cs.flatMap PeerContribution.outputs).map FusionOutputRef.value).sum =
        (cs.map paid).sum := by
    intro cs
    induction cs with
    | nil => rfl
    | cons c cs ih =>
      rw [List.flatMap_cons, List.flatMap_cons, List.map_append, List.map_append, List.sum_append,
        List.sum_append, List.map_cons, List.sum_cons, ← ih]
      unfold paid
      ring
  unfold totalIn totalOut
  rw [(hInputs.map _).sum_eq, (hOutputs.map _).sum_eq, hSums]

theorem size_of_assembled : estimateTxSize tx = 10 + (contributions.map contributedBytes).sum := by
  rcases assembleFusionTx_spec hAssemble with ⟨-, hInputs, hOutputs⟩
  have hSums :
      ∀ cs : List PeerContribution,
        ((cs.flatMap PeerContribution.inputs).map (fun i => sizeOfInput i.pubkey.length)).sum +
            ((cs.flatMap PeerContribution.outputs).map (fun o => sizeOfOutput o.script.length)).sum
              =
          (cs.map contributedBytes).sum := by
    intro cs
    induction cs with
    | nil => simp
    | cons c cs ih =>
      rw [List.flatMap_cons, List.flatMap_cons, List.map_append, List.map_append, List.sum_append,
        List.sum_append, List.map_cons, List.sum_cons, ← ih]
      unfold contributedBytes
      ring
  unfold estimateTxSize txOverhead
  rw [(hInputs.map _).sum_eq, (hOutputs.map _).sum_eq, add_assoc, hSums]

/- The gate only depends on the fee, when everything that is mine was assembled. -/
theorem passes_iff_of_assembled {mine : PeerContribution} (hMine : mine ∈ contributions) :
    (verifyFusionSafety tx mine feerate).ok = true ↔
    minimumFee tx feerate ≤ (contributions.map paid).sum ∧
      (contributions.map paid).sum ≤ minimumFee tx feerate * maxFeeFactor := by
  rcases assembleFusionTx_spec hAssemble with ⟨-, hInputs, hOutputs⟩
  have hHas : ∀ i ∈ mine.inputs, inputKey i ∈ tx.inputs.map inputKey := by
    intro i hMem
    apply List.mem_map_of_mem
    apply hInputs.mem_iff.mpr
    exact List.mem_flatMap.mpr ⟨mine, hMine, hMem⟩
  have hCounts :
      ∀ key, (mine.outputs.map outputKey).count key ≤ (tx.outputs.map outputKey).count key := by
    intro key
    rw [(hOutputs.map outputKey).count_eq]
    apply List.Sublist.count_le
    apply List.Sublist.map
    rw [List.flatMap_def]
    exact List.sublist_flatten_of_mem (List.mem_map_of_mem hMine)
  have hSize : 0 ≤ minimumFee tx feerate := by
    have hNonneg : 0 ≤ estimateTxSize tx := by
      unfold estimateTxSize txOverhead
      have hIn : 0 ≤ (tx.inputs.map (fun i => sizeOfInput i.pubkey.length)).sum := by
        apply List.sum_nonneg
        intro size hMem
        rcases List.mem_map.mp hMem with ⟨i, -, rfl⟩
        unfold sizeOfInput
        positivity
      have hOut : 0 ≤ (tx.outputs.map (fun o => sizeOfOutput o.script.length)).sum := by
        apply List.sum_nonneg
        intro size hMem
        rcases List.mem_map.mp hMem with ⟨o, -, rfl⟩
        unfold sizeOfOutput
        positivity
      linarith
    apply Int.ceil_nonneg
    positivity
  have hFee := fee_of_assembled hAssemble
  rw [verifyFusionSafety_ok_iff, hFee]
  constructor
  · intro hOk
    exact hOk.2.2.2
  · intro hBounds
    exact ⟨hHas, hCounts, by omega, hBounds⟩

end

theorem minimumFee_of_assembled
    (hFair : List.Forall₂ (Fair participantCount feerate) peers contributions)
    (hAssemble : assembleFusionTx contributions = .ok tx) :
    minimumFee tx feerate = wholeFee feerate peers (outputCounts contributions) := by
  unfold minimumFee wholeFee
  rw [size_of_assembled hAssemble, sum_contributedBytes hFair]

--- Choosing Random Numbers

/- The first number chooses how many outputs there are, and the others are zero. -/
def choosing (options : P2pOutputPlanOptions) (count : Nat) : Nat → ℚ :=
  fun position =>
    if position = 0 then ((count : ℚ) - 2) / ((options.maxOutputs : ℚ) - 1)
    else 0

theorem exists_drawFeeFuzz (hZero : ∀ position, position ≠ 0 → randomUnit position = 0)
    (budget : Int) :
    ∃ fuzz, drawFeeFuzz randomUnit budget = .ok fuzz ∧ fuzz.1 = 0 ∧ fuzz.2 ≠ 0 := by
  have hOne := hZero 1 Nat.one_ne_zero
  have hDrawn : checkedRandom randomUnit 1 = .ok (randomUnit 1) :=
    checkedRandom_eq (by rw [hOne]) (by rw [hOne]; norm_num)
  unfold drawFeeFuzz
  split
  · rw [bind_of_ok hDrawn, hOne]
    refine ⟨_, rfl, ?_, Nat.succ_ne_zero 1⟩
    dsimp only
    rw [zero_mul, Int.floor_zero]
  · exact ⟨_, rfl, rfl, Nat.one_ne_zero⟩

theorem exists_drawWeights (hZero : ∀ position, position ≠ 0 → randomUnit position = 0)
    {position : Nat} (hPosition : position ≠ 0) (outputCount : Nat) :
    ∃ weights, drawWeights randomUnit position outputCount = .ok weights := by
  unfold drawWeights
  apply exists_mapM
  intro index hIndex
  have hHere := hZero (position + index) (by omega)
  have hDrawn : checkedRandom randomUnit (position + index) = .ok (randomUnit (position + index)) :=
    checkedRandom_eq (by rw [hHere]) (by rw [hHere]; norm_num)
  rw [bind_of_ok hDrawn]
  exact ⟨_, rfl⟩

theorem exists_plan (hCheck : options.check = .ok ()) (hCount : options.Affordable count) :
    ∃ plan,
    planP2pOutputValues options (choosing options count) = .ok plan ∧ plan.values.length = count ∧
      plan.feeShare = options.share count := by
  have hTwo := hCount.two_le
  have hLe := hCount.le_maxOutputs
  have hTwoCast : (2 : ℚ) ≤ count := by exact_mod_cast hTwo
  have hLeCast : (count : ℚ) ≤ options.maxOutputs := Nat.cast_le.mpr hLe
  have hZero : ∀ position, position ≠ 0 → choosing options count position = 0 :=
    fun position hPosition => if_neg hPosition
  have hFirst : choosing options count 0 = ((count : ℚ) - 2) / ((options.maxOutputs : ℚ) - 1) :=
    if_pos rfl
  have hDrawn : checkedRandom (choosing options count) 0 = .ok (choosing options count 0) := by
    apply checkedRandom_eq
    · rw [hFirst]
      exact div_nonneg (by linarith) (by linarith)
    · rw [hFirst, div_lt_one (by linarith)]
      linarith
  have hChosen : 2 + ⌊choosing options count 0 * ((options.maxOutputs : ℚ) - 1)⌋.toNat = count := by
    rw [hFirst, div_mul_cancel₀ _ (by linarith)]
    have hFloor : ⌊(count : ℚ) - 2⌋ = (count : Int) - 2 := by
      have hCast : (count : ℚ) - 2 = (((count : Int) - 2 : Int) : ℚ) := by
        push_cast
        ring
      rw [hCast, Int.floor_intCast]
    rw [hFloor]
    omega
  rcases exists_drawFeeFuzz hZero (options.fuzzBudget count) with ⟨fuzz, hFuzz, hNoNoise, hNext⟩
  rcases exists_drawWeights hZero hNext count with ⟨weights, hWeights⟩
  have hTarget :
      checkedRandom (choosing options count) (fuzz.2 + count) =
        .ok (choosing options count (fuzz.2 + count)) := by
    have hHere := hZero (fuzz.2 + count) (by omega)
    exact checkedRandom_eq (by rw [hHere]) (by rw [hHere]; norm_num)
  unfold planP2pOutputValues
  rw [bind_of_ok hCheck, if_neg (by omega), bind_of_ok hDrawn]
  dsimp only
  rw [hChosen, bind_of_ok hFuzz, bind_of_ok hWeights, bind_of_ok hTarget]
  refine ⟨_, rfl, ?_, ?_⟩
  · unfold Apportionment.giveRest Apportionment.portions
    rw [List.length_modify, List.length_map, List.length_map, (drawWeights_spec hWeights).1]
  · rw [hNoNoise, add_zero]

/- Each peer can choose its number of outputs. -/
theorem exists_contributions
    (hCounts : List.Forall₂ (CanPlan participantCount feerate) peers counts) :
    ∃ contributions,
    List.Forall₂ (Contributed participantCount feerate) peers contributions ∧
      outputCounts contributions = counts ∧
      contributions.flatMap PeerContribution.inputs = peers.flatMap Peer.inputs := by
  induction hCounts with
  | nil => exact ⟨[], List.Forall₂.nil, rfl, rfl⟩
  | @cons peer count peers counts hHere hRest ih =>
    rcases ih with ⟨contributions, hAll, hSame, hInputs⟩
    rcases exists_plan hHere.1 hHere.2 with ⟨plan, hPlan, hLength, -⟩
    refine ⟨peer.contribution plan :: contributions, List.Forall₂.cons ⟨_, plan, hPlan, rfl⟩ hAll,
      ?_, ?_⟩
    · unfold outputCounts at hSame ⊢
      rw [List.map_cons, hSame, (contribution_outputs peer plan).1, hLength]
    · rw [List.flatMap_cons, List.flatMap_cons, hInputs]
      rfl

--- Plans That Pass

/- Whatever numbers of outputs the peers can choose, their rounded shares are within what the gate
   allows. -/
def SharesAllowed (peers : List Peer) (feerate : Nat) : Prop :=
  ∀ counts,
    List.Forall₂ (CanPlan peers.length feerate) peers counts →
      sharedFee peers.length feerate peers counts ≤ wholeFee feerate peers counts * maxFeeFactor

theorem wellPlanned_of_plan {plan : P2pOutputPlan}
    (hPlan : planP2pOutputValues options randomUnit = .ok plan) : WellPlanned options plan := by
  have hPlanned := planP2pOutputValues_spec hPlan
  exact ⟨hPlanned.affordable.two_le, hPlanned.affordable.le_six, hPlanned.least, hPlanned.total⟩

theorem fair_of_all_contributed (hScripts : ∀ peer ∈ peers, peer.PaysToPubkeyHash)
    (hContributed : List.Forall₂ (Contributed participantCount feerate) peers contributions) :
    List.Forall₂ (Fair participantCount feerate) peers contributions := by
  induction hContributed with
  | nil => exact List.Forall₂.nil
  | cons hHere hRest ih =>
    rw [List.forall_mem_cons] at hScripts
    exact List.Forall₂.cons (fair_of_contributed hScripts.1 hHere) (ih hScripts.2)

section

variable (hPeers : peers ≠ [])
variable (hFair : List.Forall₂ (Fair peers.length feerate) peers contributions)
include hPeers hFair

/- The rounded whole is never more than the rounded shares. -/
theorem wholeFee_le_paid :
    wholeFee feerate peers (outputCounts contributions) ≤ (contributions.map paid).sum := by
  have hLength := (canPlan_counts hFair).length_eq
  calc
    wholeFee feerate peers (outputCounts contributions) =
      ⌈(exactShares peers.length feerate peers (outputCounts contributions)).sum⌉ :=
      wholeFee_eq hLength hPeers
    _ ≤ ((exactShares peers.length feerate peers (outputCounts contributions)).map Int.ceil).sum :=
      Apportionment.ceil_sum_le _
    _ = sharedFee peers.length feerate peers (outputCounts contributions) :=
      (sharedFee_eq hFair).symm
    _ ≤ (contributions.map paid).sum := sharedFee_le_paid hFair

theorem paid_le_of_condition (hCondition : 2 ≤ feerate ∨ SharesAllowed peers feerate) :
    (contributions.map paid).sum ≤
      wholeFee feerate peers (outputCounts contributions) * maxFeeFactor := by
  have hLength := (canPlan_counts hFair).length_eq
  by_cases hFeerate : 2 ≤ feerate
  · have hThree := paid_le_three hFeerate hFair
    have hCeil :=
      Int.le_ceil (exactShares peers.length feerate peers (outputCounts contributions)).sum
    rw [← wholeFee_eq hLength hPeers] at hCeil
    have hCast :
        (((contributions.map paid).sum : Int) : ℚ) ≤
          ((wholeFee feerate peers (outputCounts contributions) * 3 : Int) : ℚ) := by
      have hWord : ((3 : Int) : ℚ) = 3 := by norm_num
      rw [Int.cast_mul, hWord]
      linarith
    exact Int.cast_le.mp hCast
  · have hAllowed := hCondition.resolve_left hFeerate
    have hOne : feerate = 1 := by
      cases hFair with
      | nil => exact absurd rfl hPeers
      | cons hHere hRest =>
        have hLeast : 1 ≤ feerate := hHere.checked.one_le_feerate
        omega
    subst hOne
    rw [paid_eq_sharedFee hFair]
    exact hAllowed _ (canPlan_counts hFair)

end

/- The numbers of outputs can all be chosen, so that each of them has to be allowed. -/
theorem sharesAllowed_of_passes (hScripts : ∀ peer ∈ peers, peer.PaysToPubkeyHash)
    (hDistinct : ((peers.flatMap Peer.inputs).map inputKey).Nodup)
    (hPass : HonestPlansPass peers 1) : SharesAllowed peers 1 := by
  intro counts hCounts
  cases peers with
  | nil =>
    cases hCounts
    decide +kernel
  | cons peer peers =>
    rcases exists_contributions hCounts with ⟨contributions, hContributed, rfl, hInputs⟩
    have hFair := fair_of_all_contributed hScripts hContributed
    rw [← hInputs] at hDistinct
    rcases exists_assembleFusionTx hDistinct with ⟨tx, hAssemble⟩
    cases hContributed with
    | cons hHere hRest =>
      have hOk := hPass.passes _ tx (List.Forall₂.cons hHere hRest) hAssemble _ List.mem_cons_self
      rw [passes_iff_of_assembled hAssemble List.mem_cons_self, paid_eq_sharedFee hFair,
        minimumFee_of_assembled hFair hAssemble] at hOk
      exact hOk.2

/- A peer with one coin. -/
def samplePeer (digit : Char) : Peer where
  inputs :=
    [{ prevTxid := String.ofList (List.replicate 64 digit)
       prevIndex := 0
       value := 100000
       pubkey := String.ofList ('0' :: '2' :: List.replicate 64 '1') }]
  minOutput := none
  tier := none
  scripts := fun _ => String.ofList ("76a914".toList ++ List.replicate 40 '0' ++ "88ac".toList)

def samplePeers : List Peer := [samplePeer 'a', samplePeer 'b', samplePeer 'c', samplePeer 'd']

theorem samplePeers_scripts : ∀ peer ∈ samplePeers, peer.PaysToPubkeyHash := by
  intro peer hMem index
  have hScript :
      (String.ofList ("76a914".toList ++ List.replicate 40 '0' ++ "88ac".toList)).length = 50 := by
    decide +kernel
  simp only [samplePeers, List.mem_cons, List.not_mem_nil, or_false] at hMem
  rcases hMem with rfl | rfl | rfl | rfl
  · exact hScript
  · exact hScript
  · exact hScript
  · exact hScript

theorem samplePeers_distinct : ((samplePeers.flatMap Peer.inputs).map inputKey).Nodup := by
  decide +kernel

/- A plan of two outputs is checked by evaluation. -/
def canPlanTwo (peer : Peer) : Bool :=
  (peer.options 4 1).check.toOption.isSome &&
    (peer.options 4 1).minimum * 2 ≤ (peer.options 4 1).sumIn - (peer.options 4 1).share 2

theorem canPlan_two (hCheck : canPlanTwo peer = true) : CanPlan 4 1 peer 2 := by
  unfold canPlanTwo at hCheck
  rw [Bool.and_eq_true, decide_eq_true_eq] at hCheck
  constructor
  · rcases Option.isSome_iff_exists.mp hCheck.1 with ⟨done, hDone⟩
    exact eq_ok_of_toOption hDone
  · exact ⟨le_refl 2, by decide, hCheck.2⟩

end OptnWallet.Nostr
