import OptnWallet.Nostr.CoordinatorRound
import OptnWallet.Nostr.CredentialRequests.Fees

/-
  What a coordinator accepts.  A balanced request for the slots of its sender is answered, inputs
  and outputs with credentials are taken, and when everything came back and the fee is in bounds a
  transaction is assembled.

  Main declarations:
    * `Nostr.handleCredentialRequest_of_balanced`
    * `Nostr.acceptInputs_of_credentials`
    * `Nostr.onOutputs_of_batch`
    * `Nostr.tryAssemble_of_ready`
-/

--- Hashes

namespace OptnWallet.Nostr

open Schnorr (Curve)
open StagedUpdate (bind_of_ok mapM_of_ok)

variable {hexToBin : String → List UInt8} {sha256 : List UInt8 → Vector UInt8 32}

theorem isHexOf_ofList (count : Nat) (cs : List Char) :
    isHexOf count (String.ofList cs) = (decide (cs.length = count) && cs.all isHexChar) := by
  unfold isHexOf
  rw [String.length_ofList, String.toList_ofList]

theorem toLowerCase_ofList (cs : List Char) :
    toLowerCase (String.ofList cs) = String.ofList (cs.map Char.toLower) := by
  unfold toLowerCase
  rw [String.toList_ofList]

section

variable (hReads : ReadsHex hexToBin)
include hReads

theorem length_of_digits {text : String} (hDigits : ∀ c ∈ text.toList, isHexChar c = true) :
    (hexToBin (toLowerCase text)).length = (text.length + 1) / 2 := by
  rw [hReads.length, utf16Length_toLowerCase hDigits]

theorem length_of_isHexOf {count : Nat} {text : String} (hHex : isHexOf count text = true) :
    (hexToBin (toLowerCase text)).length = (count + 1) / 2 := by
  unfold isHexOf at hHex
  rw [Bool.and_eq_true, decide_eq_true_eq, List.all_eq_true] at hHex
  rw [length_of_digits hReads hHex.2, hHex.1]

/- The hash of an input that is valid is that of its component. -/
theorem inputCredentialMessageHash_of_valid {input : FusionInputRef}
    (hValid : validInput input = true) {salt : String} (hSalt : isHexOf 64 salt = true) :
    inputCredentialMessageHash hexToBin sha256 input salt =
      .ok (sha256 (Fusion.Schema.encodeComponent (componentOfInput hexToBin input salt))) := by
  unfold validInput isSafeIntegerIn at hValid
  simp only [Bool.and_eq_true, decide_eq_true_eq] at hValid
  rcases hValid with ⟨⟨⟨hTxid, ⟨hIndexSafe, hIndexLow⟩, -⟩, ⟨hValueSafe, hValueLow⟩, -⟩, hPubkey⟩
  have hKey := length_of_compressed hReads hPubkey
  have hAccepts :
      AcceptsInput hexToBin
        { prevTxidDisplayHex := input.prevTxid
          prevIndex := input.prevIndex
          pubkeyHex := input.pubkey
          amount := input.value
          saltCommitmentHex := salt } := by
    constructor
    · exact length_of_isHexOf hReads hSalt
    · dsimp only
      omega
    · dsimp only
      omega
    · exact hIndexSafe
    · exact hIndexLow
    · exact hValueSafe
    · exact le_trans (by decide) hValueLow
    · exact length_of_isHexOf hReads hTxid
  have hEncode := encodeInputComponent_of_accepts hexToBin hAccepts
  have hFits := encodeInputComponent_fits hexToBin hEncode
  unfold inputCredentialMessageHash inputComponentBlindMessage
  rw [bind_of_ok hEncode]
  exact componentBlindMessageHash_of_fits sha256 hFits

theorem outputCredentialMessageHash_of_valid {output : AuthorizedOnionOutput}
    (hValid : validAuthorizedOutput output = true) (context : FusionCredentialContext) :
    outputCredentialMessageHash hexToBin sha256 context output.output (serialKey output)
        output.saltCommitment =
      .ok (sha256
          (Fusion.Schema.encodeComponent
            (componentOfOutput hexToBin output.output output.saltCommitment))) := by
  unfold validAuthorizedOutput validOutput isSafeIntegerIn at hValid
  simp only [Bool.and_eq_true, decide_eq_true_eq, List.all_eq_true] at hValid
  rcases hValid with ⟨⟨⟨⟨⟨⟨⟨hSome, hShort⟩, -⟩, hDigits⟩, ⟨hSafe, hLow⟩, -⟩, -⟩, -⟩, hSalt⟩
  have hScript := length_of_digits hReads hDigits
  have hAccepts :
      AcceptsOutput hexToBin
        { scriptHex := output.output.script
          amount := output.output.value
          saltCommitmentHex := output.saltCommitment } := by
    unfold maxScriptHexChars at hShort
    constructor
    · exact length_of_isHexOf hReads hSalt
    · dsimp only
      omega
    · dsimp only
      omega
    · exact hSafe
    · exact le_trans (by decide) hLow
  have hEncode := encodeOutputComponent_of_accepts hexToBin hAccepts
  have hFits := encodeOutputComponent_fits hexToBin hEncode
  unfold outputCredentialMessageHash outputComponentBlindMessage
  rw [bind_of_ok hEncode]
  exact componentBlindMessageHash_of_fits sha256 hFits

end

--- Requests

variable {n : Nat} {Point : Type} [AddCommGroup Point] [Module (ZMod n) Point] [DecidableEq Point]
variable {curve : Curve n Point} {setup : Pedersen.Setup curve} {params : CoordinatorParams}
variable {state : CoordinatorRound}

/- A request that is answered. -/
structure Balanced (hexToBin : String → List UInt8) (setup : Pedersen.Setup curve)
    (params : CoordinatorParams) (state : CoordinatorRound) (sender : String)
    (request : CredentialRequestMessage) (base : Nat) : Prop where
  fresh : sender ∉ state.credentialedPeers
  parses : request.parses = true
  balance :
    pedersenBalanceHolds hexToBin setup request.amountCommitments request.excessFee
        request.pedersenTotalNonce = true
  base_eq : peerCredentialSlotBase params.participants sender = .ok base
  within : ∀ slot ∈ request.requests, base ≤ slot.1 ∧ slot.1 < base + credentialSlotsPerPeer
  inRange : base + credentialSlotsPerPeer ≤ params.participants.length * credentialSlotsPerPeer
  unused : ((request.requests.map Prod.fst).reverse ++ state.usedSlots).Nodup
  challenges : ∀ slot ∈ request.requests, (hexToBin slot.2).length = 32

/- By induction over the requests. -/
theorem foldlM_signHex_of_unused {slots : Nat} {requests : List (Nat × String)}
    (hSlots : ∀ slot ∈ requests, slot.1 < slots)
    (hChallenges : ∀ slot ∈ requests, (hexToBin slot.2).length = 32) {used : List Nat}
    (hUnused : ((requests.map Prod.fst).reverse ++ used).Nodup) :
    requests.foldlM (CoordinatorRound.signHex hexToBin slots) used =
      .ok ((requests.map Prod.fst).reverse ++ used) := by
  induction requests generalizing used with
  | nil => rfl
  | cons slot requests ih =>
    rw [List.map_cons, List.reverse_cons, List.append_assoc, List.singleton_append] at hUnused ⊢
    have hFresh := (List.nodup_cons.mp hUnused.of_append_right).1
    have hSign : CoordinatorRound.signHex hexToBin slots used slot = .ok (slot.1 :: used) := by
      unfold CoordinatorRound.signHex
      rw [if_neg (not_le.mpr (hSlots slot List.mem_cons_self)), if_neg hFresh,
        if_neg (not_not.mpr (hChallenges slot List.mem_cons_self))]
    rw [List.foldlM_cons, bind_of_ok hSign]
    exact ih (fun other hMem => hSlots other (List.mem_cons_of_mem _ hMem))
      (fun other hMem => hChallenges other (List.mem_cons_of_mem _ hMem)) hUnused

theorem handleCredentialRequest_of_balanced {sender : String} {request : CredentialRequestMessage}
    {base : Nat} (hBalanced : Balanced hexToBin setup params state sender request base)
    (hidden : List Fusion.Component) :
    state.handleCredentialRequest curve hexToBin setup params sender request hidden =
      { state with
        usedSlots := (request.requests.map Prod.fst).reverse ++ state.usedSlots
        credentialedPeers := state.credentialedPeers ++ [sender]
        inputQuotaByPeer := state.inputQuotaByPeer ++ [(sender, request.inputCount)]
        outputQuotaByPeer := state.outputQuotaByPeer ++ [(sender, request.outputCount)]
        issued := state.issued ++ hidden } := by
  have hParses := hBalanced.parses
  unfold CredentialRequestMessage.parses at hParses
  simp only [Bool.and_eq_true, decide_eq_true_eq] at hParses
  have hWithin :
      request.requests.any
          (fun slot => decide (slot.1 < base) || decide (base + credentialSlotsPerPeer ≤ slot.1)) =
        false := by
    rw [List.any_eq_false]
    intro slot hMem
    have hSlot := hBalanced.within slot hMem
    simp only [Bool.or_eq_true, decide_eq_true_eq]
    omega
  have hSigned :=
    foldlM_signHex_of_unused
      (fun slot hMem => lt_of_lt_of_le (hBalanced.within slot hMem).2 hBalanced.inRange)
      hBalanced.challenges hBalanced.unused
  unfold CoordinatorRound.handleCredentialRequest
  rw [if_neg hBalanced.fresh, if_neg (by omega), if_neg (by rw [hBalanced.balance]; decide),
    hBalanced.base_eq]
  dsimp only
  rw [if_neg (by rw [hWithin]; decide), hSigned]

--- Inputs and Outputs

theorem acceptInputs_of_credentials {refs : List FusionInputRef} {sigs salts : List String}
    (hSigs : refs.length = sigs.length) (hSalts : refs.length = salts.length)
    (hQuota : (state.inputPool params).length + refs.length ≤ state.expectedInputCount)
    (hChecked : ∀ entry ∈ refs.zip (sigs.zip salts),
        CoordinatorRound.checkInput curve hexToBin sha256 params entry = .ok ())
    (hKeys : ((refs.map inputKey).reverse ++ state.credentialedInputs).Nodup) :
    state.acceptInputs curve hexToBin sha256 params refs sigs salts = .ok
        { state with
          credentialedInputs := (refs.map inputKey).reverse ++ state.credentialedInputs
          anonymousInputs := state.anonymousInputs ++ refs } := by
  have hAdded :
      refs.foldlM CoordinatorRound.addCredentialedInput state.credentialedInputs =
        .ok ((refs.map inputKey).reverse ++ state.credentialedInputs) := by
    clear hChecked hQuota hSigs hSalts
    generalize state.credentialedInputs = credentialed at hKeys ⊢
    induction refs generalizing credentialed with
    | nil => rfl
    | cons input refs ih =>
      rw [List.map_cons, List.reverse_cons, List.append_assoc, List.singleton_append] at hKeys ⊢
      have hFresh : inputKey input ∉ credentialed := by
        have hRight := hKeys.of_append_right
        exact (List.nodup_cons.mp hRight).1
      have hAdd :
          CoordinatorRound.addCredentialedInput credentialed input =
            .ok (inputKey input :: credentialed) := by
        unfold CoordinatorRound.addCredentialedInput
        exact if_neg hFresh
      rw [List.foldlM_cons, bind_of_ok hAdd]
      exact ih _ hKeys
  rcases StagedUpdate.exists_mapM (fun entry hMem => ⟨(), hChecked entry hMem⟩) with ⟨checked, hMap⟩
  unfold CoordinatorRound.acceptInputs
  rw [if_neg (by omega), if_neg (by omega), bind_of_ok hMap, bind_of_ok hAdded]

theorem parses_inputs {refs : List FusionInputRef} {sigs salts : List String}
    (hSome : 1 ≤ refs.length) (hFew : refs.length ≤ maxComponents)
    (hValid : ∀ input ∈ refs, validInput input = true) (hSigs : sigs.length = refs.length)
    (hSigDigits : ∀ sig ∈ sigs, isHexOf 128 sig = true) (hSalts : salts.length = refs.length)
    (hSaltDigits : ∀ salt ∈ salts, isHexOf 64 salt = true) :
    (RoundMessage.inputs refs sigs salts).parses = true := by
  unfold RoundMessage.parses validArray
  simp only [Bool.and_eq_true, decide_eq_true_eq, List.all_eq_true]
  exact ⟨⟨⟨⟨⟨⟨hSome, hFew⟩, hValid⟩, hSigs⟩, hSigDigits⟩, hSalts⟩, hSaltDigits⟩

variable {outputs : List AuthorizedOnionOutput} {hash : AuthorizedOnionOutput → String}

/- By induction over the outputs. -/
theorem foldlM_checkOutput_of_credentials {context : FusionCredentialContext}
    {issuerPubkey : String}
    (hValid : ∀ output ∈ outputs, validAuthorizedOutput output = true)
    (hHash : ∀ output ∈ outputs,
        outputCredentialMessageHashHex hexToBin sha256 context output.output (serialKey output)
              output.saltCommitment = .ok (hash output) ∧
          verifyBchSchnorrHex hexToBin curve sha256 issuerPubkey output.credentialSig (hash output)
              = true) (seen : SeenOutputs)
    (hSerials : ((outputs.map serialKey).reverse ++ seen.serials).Nodup)
    (hIds : ((outputs.map outputId).reverse ++ seen.outputIds).Nodup)
    (hHashes : ((outputs.map hash).reverse ++ seen.componentHashes).Nodup) :
    outputs.foldlM (checkOutput hexToBin curve sha256 context issuerPubkey) seen = .ok
        { serials := (outputs.map serialKey).reverse ++ seen.serials
          outputIds := (outputs.map outputId).reverse ++ seen.outputIds
          componentHashes := (outputs.map hash).reverse ++ seen.componentHashes } := by
  induction outputs generalizing seen with
  | nil => rfl
  | cons output outputs ih =>
    have hFirst := hHash output List.mem_cons_self
    simp only [List.map_cons, List.reverse_cons, List.append_assoc, List.singleton_append]
      at hSerials hIds hHashes ⊢
    have hFreshSerial := (List.nodup_cons.mp hSerials.of_append_right).1
    have hFreshId := (List.nodup_cons.mp hIds.of_append_right).1
    have hFreshHash := (List.nodup_cons.mp hHashes.of_append_right).1
    have hCheck :
        checkOutput hexToBin curve sha256 context issuerPubkey seen output = .ok
            { serials := serialKey output :: seen.serials
              outputIds := outputId output :: seen.outputIds
              componentHashes := hash output :: seen.componentHashes } := by
      unfold checkOutput
      rw [if_neg (by rw [hValid output List.mem_cons_self]; decide)]
      dsimp only
      rw [bind_of_ok hFirst.1,
        if_neg
          (by
            rw [not_or, not_or]
            exact ⟨hFreshSerial, hFreshId, hFreshHash⟩), if_neg (by rw [hFirst.2]; decide)]
    rw [List.foldlM_cons, bind_of_ok hCheck]
    exact ih (fun other hMem => hValid other (List.mem_cons_of_mem _ hMem))
      (fun other hMem => hHash other (List.mem_cons_of_mem _ hMem)) _ hSerials hIds hHashes

/- A batch of distinct outputs with credentials. -/
structure BatchFits (curve : Curve n Point) (hexToBin : String → List UInt8)
    (sha256 : List UInt8 → Vector UInt8 32) (params : CoordinatorParams)
    (outputs : List AuthorizedOnionOutput) (hash : AuthorizedOnionOutput → String) : Prop where
  nonempty : outputs ≠ []
  valid : ∀ output ∈ outputs, validAuthorizedOutput output = true
  covered :
    ∀ output ∈ outputs,
    outputCredentialMessageHashHex hexToBin sha256 params.context output.output (serialKey output)
          output.saltCommitment = .ok (hash output) ∧
      verifyBchSchnorrHex hexToBin curve sha256 params.issuerPubkey output.credentialSig
          (hash output) = true
  serials : (outputs.map serialKey).Nodup
  ids : (outputs.map outputId).Nodup
  hashes : (outputs.map hash).Nodup

theorem verifyAuthorizedOutputBatch_of_fits
    (hFits : BatchFits curve hexToBin sha256 params outputs hash) :
    verifyAuthorizedOutputBatch hexToBin curve sha256 outputs outputs.length params.issuerPubkey
        params.context = .ok (outputs.map serialKey) := by
  have hSome := List.length_pos_iff.mpr hFits.nonempty
  have hRun :=
    foldlM_checkOutput_of_credentials hFits.valid hFits.covered
      { serials := [], outputIds := [], componentHashes := [] }
      (by simpa using hFits.serials) (by simpa using hFits.ids)
      (by simpa using hFits.hashes)
  unfold verifyAuthorizedOutputBatch
  rw [if_neg (by omega), bind_of_ok hRun]
  simp

theorem onOutputs_of_batch {sender : String}
    (hFits : BatchFits curve hexToBin sha256 params outputs hash) (hActive : state.assembled = none)
    (hSender : sender ∉ params.participants)
    (hFull : state.outputQuotaByPeer.length = params.participants.length)
    (hNone : state.anonymousOutputBatches = [])
    (hCount : outputs.length = state.expectedOutputCount)
    (hNullifiers : ∀ output ∈ outputs, serialKey output ∉ state.nullifiers.read params.session) :
    state.onOutputs curve hexToBin sha256 params sender outputs =
      CoordinatorRound.tryAssemble params
        { state with
          nullifiers :=
            state.nullifiers.write params.session
              (state.nullifiers.read params.session ++ outputs.map serialKey)
          anonymousOutputBatches := [outputs] } := by
  have hVerify := verifyAuthorizedOutputBatch_of_fits hFits
  rw [hCount] at hVerify
  have hLower : (outputs.map serialKey).map toLowerCase = outputs.map serialKey := by
    rw [List.map_map]
    apply List.map_congr_left
    intro output hMem
    exact (serialKey_of_valid (hFits.valid output hMem)).2
  have hConsumed :
      consumeOutputNullifiers params.session (outputs.map serialKey) state.nullifiers = (true,
          state.nullifiers.write params.session
            (state.nullifiers.read params.session ++ outputs.map serialKey)) := by
    rw [consumeOutputNullifiers_eq_true_iff, hLower]
    refine ⟨?_, ?_, hFits.serials, ?_, rfl⟩
    · intro hNil
      exact hFits.nonempty (List.map_eq_nil_iff.mp hNil)
    · intro serial hMem
      rcases List.mem_map.mp hMem with ⟨output, hOutput, rfl⟩
      exact (serialKey_of_valid (hFits.valid output hOutput)).1
    · intro serial hMem
      rcases List.mem_map.mp hMem with ⟨output, hOutput, rfl⟩
      exact hNullifiers output hOutput
  unfold CoordinatorRound.onOutputs
  rw [if_neg (by rw [hActive]; decide),
    if_neg
      (by
        rw [not_or, not_or, not_or, not_not, not_not, not_not]
        exact ⟨hSender, hFull, List.length_eq_zero_iff.mpr hNone, hCount⟩), hVerify]
  dsimp only
  rw [hConsumed]
  dsimp only
  rw [if_neg (by decide), hNone, List.nil_append]

--- Assembly

def feeOf (inputs : List FusionInputRef) (outputs : List FusionOutputRef) : Int :=
  (inputs.map FusionInputRef.value).sum - (outputs.map FusionOutputRef.value).sum

/- What has come back, with a fee that is in bounds. -/
structure ReadyToAssemble (params : CoordinatorParams) (state : CoordinatorRound) : Prop where
  settled : state.settled = false
  assembled : state.assembled = none
  ready : state.readyPeers.length = params.participants.length
  outputs : state.outputPool ≠ []
  inputs : state.inputPool params ≠ []
  count : (state.inputPool params).length = state.expectedInputCount
  quotas : state.inputQuotaByPeer.length = params.participants.length
  known : ∀ input ∈ state.inputPool params, inputKey input ∈ state.credentialedInputs
  keys : ((state.inputPool params).map inputKey).Nodup
  fee_nonneg : 0 ≤ feeOf (state.inputPool params) state.outputPool
  fee_rough : feeOf (state.inputPool params) state.outputPool ≤ 50000
  fee_le :
    feeOf (state.inputPool params) state.outputPool ≤
      ⌈((10 +
          ((state.inputPool params).map (fun i => (108 + i.pubkey.length / 2 : ℚ))).sum +
          (state.outputPool.map (fun o => (9 + o.script.length / 2 : ℚ))).sum) *
          params.feerate) / 1000⌉ * 3

/- Not every peer has said that it is ready. -/
theorem tryAssemble_of_waiting (hWaiting : state.readyPeers.length ≠ params.participants.length) :
    state.tryAssemble params = state := by
  unfold CoordinatorRound.tryAssemble
  exact if_pos (Or.inr (Or.inr hWaiting))

theorem outputsReady_of_ready (hReady : ReadyToAssemble params state) :
    state.outputsReady params = true := by
  have hOutputs := mt List.length_eq_zero_iff.mp hReady.outputs
  have hInputs := mt List.length_eq_zero_iff.mp hReady.inputs
  have hFee := hReady.fee_nonneg
  have hRough := hReady.fee_rough
  unfold feeOf at hFee hRough
  unfold CoordinatorRound.outputsReady
  simp only [Bool.and_eq_true, decide_eq_true_eq]
  exact ⟨⟨⟨⟨hOutputs, hReady.count⟩, hInputs⟩, hFee⟩, le_trans hRough (le_max_right _ _)⟩

theorem tryAssemble_of_ready (hReady : ReadyToAssemble params state) :
    ∃ draft,
      draft.inputs.Perm (state.inputPool params) ∧
        state.tryAssemble params = { state with assembled := some draft } := by
  have hKeys :
      (([{ inputs := state.inputPool params, outputs := state.outputPool }] :
            List PeerContribution).flatMap
          PeerContribution.inputs).map inputKey =
        (state.inputPool params).map inputKey := by
    rw [List.flatMap_singleton]
  rcases
    exists_assembleFusionTx
      (by rw [hKeys]; exact hReady.keys) with
    ⟨draft, hDraft⟩
  have hSpec := assembleFusionTx_spec hDraft
  rw [List.flatMap_singleton, List.flatMap_singleton] at hSpec
  rcases hSpec with ⟨-, hInputs, hOutputs⟩
  dsimp only at hInputs hOutputs
  have hFee : totalIn draft - totalOut draft = feeOf (state.inputPool params) state.outputPool := by
    unfold totalIn totalOut feeOf
    rw [(hInputs.map FusionInputRef.value).sum_eq, (hOutputs.map FusionOutputRef.value).sum_eq]
  have hInputSize := (hInputs.map (fun i => (108 + i.pubkey.length / 2 : ℚ))).sum_eq
  have hOutputSize := (hOutputs.map (fun o => (9 + o.script.length / 2 : ℚ))).sum_eq
  refine ⟨draft, hInputs, ?_⟩
  unfold CoordinatorRound.tryAssemble
  dsimp only
  rw [if_neg
      (by
        rw [hReady.settled, hReady.assembled, hReady.ready]
        simp), if_neg (by rw [outputsReady_of_ready hReady]; decide),
    if_neg
      (by
        rw [not_or, not_not, not_not]
        exact ⟨hReady.quotas, hReady.count⟩),
    if_neg
      (by
        rw [List.any_eq_true]
        rintro ⟨input, hMem, hMissing⟩
        have hKnown := hReady.known input hMem
        rw [← List.contains_iff_mem] at hKnown
        rw [hKnown] at hMissing
        cases hMissing), hDraft]
  dsimp only
  rw [hFee, hInputSize, hOutputSize]
  rw [if_neg
    (by
      rw [not_or, not_lt, not_lt]
      exact ⟨hReady.fee_nonneg, hReady.fee_le⟩)]

end OptnWallet.Nostr
