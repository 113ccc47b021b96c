import OptnWallet.Nostr.CredentialNullifiers
import OptnWallet.Nostr.CredentialRequests

/-
  The coordinator of a round between peers, up to the transaction that it assembles.  It issues
  credentials for as many components as a peer asks for, accepts inputs from anyone that has
  credentials for them, and one batch of outputs, and assembles when everything came back.

  What it sends is left out, and what happens after the transaction is assembled.

  Main declarations:
    * `Nostr.CoordinatorRound`
    * `Nostr.CoordinatorRound.step`
    * `Nostr.CoordinatorRound.tryAssemble`
-/

--- Messages

namespace OptnWallet.Nostr

open Schnorr (Curve)

def maxComponents : Nat := 120

def maxInputCredentialsPerPeer : Nat := credentialSlotsPerPeer - maxOutputCredentialsPerPeer

structure CredentialRequestMessage where
  inputCount : Nat
  outputCount : Nat
  requests : List (Nat × String)
  componentCommitments : List InitialComponentCommitment
  amountCommitments : List String
  pedersenTotalNonce : String
  excessFee : Int
deriving DecidableEq

/- Other messages do not matter before the transaction is assembled. -/
inductive RoundMessage where
  | componentsReady
  | abort (reason : String)
  | inputs (inputs : List FusionInputRef) (credentialSigs saltCommitments : List String)
  | outputs (outputs : List AuthorizedOnionOutput)
deriving DecidableEq

def isUncompressedPoint (text : String) : Bool :=
  isHexOf 130 text && text.toList.take 2 = ['0', '4']

def validInput (input : FusionInputRef) : Bool :=
  isHexOf 64 input.prevTxid &&
    isSafeIntegerIn input.prevIndex 0 0xffffffff &&
    isSafeIntegerIn input.value 1 maxMoney &&
    isCompressedPubkey input.pubkey

def validArray {α : Type} (validator : α → Bool) (items : List α) : Bool :=
  1 ≤ items.length && items.length ≤ maxComponents && items.all validator

def validCredentialRequestSlot (slot : Nat × String) : Bool := slot.1 ≤ 1023 && isHexOf 64 slot.2

def validInitialComponentCommitment (commitment : InitialComponentCommitment) : Bool :=
  commitment.index ≤ 1023 &&
    isHexOf 64 commitment.saltedComponentHash &&
    isUncompressedPoint commitment.amountCommitment

/- What the parser admits of a request. -/
def CredentialRequestMessage.parses (self : CredentialRequestMessage) : Bool :=
  validArray validCredentialRequestSlot self.requests &&
    validArray isUncompressedPoint self.amountCommitments &&
    self.componentCommitments.length = self.requests.length &&
    self.componentCommitments.all validInitialComponentCommitment &&
    isHexOf 64 self.pedersenTotalNonce &&
    isSafeIntegerIn self.excessFee 0 maxMoney &&
    1 ≤ self.inputCount &&
    self.inputCount ≤ maxInputCredentialsPerPeer &&
    1 ≤ self.outputCount &&
    self.outputCount ≤ maxOutputCredentialsPerPeer &&
    self.requests.length = self.inputCount + self.outputCount &&
    self.amountCommitments.length = self.requests.length &&
    self.requests.length ≤ credentialSlotsPerPeer &&
    (self.requests.map Prod.fst).Nodup &&
    (self.componentCommitments.zip (self.requests.zip self.amountCommitments)).all
      (fun row =>
        row.1.index = row.2.1.1 && toLowerCase row.1.amountCommitment = toLowerCase row.2.2)

/- What the parser admits of the other messages. -/
def RoundMessage.parses : RoundMessage → Bool
  | .componentsReady => true
  | .abort reason => 1 ≤ reason.length && reason.length ≤ 240
  | .inputs refs credentialSigs saltCommitments => validArray validInput refs &&
      credentialSigs.length = refs.length &&
      credentialSigs.all (isHexOf 128) &&
      saltCommitments.length = refs.length &&
      saltCommitments.all (isHexOf 64)
  | .outputs batch => validArray validAuthorizedOutput batch

--- States

/- The coordinator holds credentials for its own components, with salts that it drew. -/
structure CoordinatorParams where
  myPubkey : String
  participants : List String
  session : String
  network : String
  tier : Int
  feerate : Nat
  issuerPubkey : String
  myContribution : PeerContribution
  inputSalts : List String
  outputSalts : List String
  participants_nodup : participants.Nodup
  mem_participants : myPubkey ∈ participants
  inputSalts_length : inputSalts.length = myContribution.inputs.length
  outputSalts_length : outputSalts.length = myContribution.outputs.length
  inputs_valid : ∀ input ∈ myContribution.inputs, validInput input = true

/- What the coordinator keeps, and the components that it issued credentials for, which it does not
   see. -/
structure CoordinatorRound where
  credentialedInputs : List String
  anonymousInputs : List FusionInputRef
  anonymousOutputBatches : List (List AuthorizedOnionOutput)
  readyPeers : List String
  credentialedPeers : List String
  inputQuotaByPeer : List (String × Nat)
  outputQuotaByPeer : List (String × Nat)
  usedSlots : List Nat
  seenNonces : List String
  nullifiers : Nullifiers
  assembled : Option AssembledFusionTx
  settled : Bool
  issued : List Fusion.Component

/- A request comes with the components that it hides.  The round is stopped by the user, by a
   timeout, by the sign of a fault, or by what goes wrong after the transaction is assembled. -/
inductive CoordinatorEvent where
  | request (session sender nonce : String) (request : CredentialRequestMessage)
      (hidden : List Fusion.Component)
  | message (session sender nonce : String) (message : RoundMessage)
  | injected
  | stopped

variable {n : Nat} {Point : Type} [AddCommGroup Point] [Module (ZMod n) Point] [DecidableEq Point]
variable (curve : Curve n Point) (hexToBin : String → List UInt8)
variable (sha256 : List UInt8 → Vector UInt8 32) (setup : Pedersen.Setup curve)

/- The component of an input, and of an output. -/
def componentOfInput (input : FusionInputRef) (saltCommitment : String) : Fusion.Component :=
  inputComponent hexToBin
    { prevTxidDisplayHex := input.prevTxid
      prevIndex := input.prevIndex
      pubkeyHex := input.pubkey
      amount := input.value
      saltCommitmentHex := saltCommitment }

def componentOfOutput (output : FusionOutputRef) (saltCommitment : String) : Fusion.Component :=
  outputComponent hexToBin
    { scriptHex := output.script, amount := output.value, saltCommitmentHex := saltCommitment }

namespace CoordinatorParams

variable (params : CoordinatorParams)

def others : List String := params.participants.filter (fun peer => peer ≠ params.myPubkey)

def context : FusionCredentialContext :=
  { session := params.session, network := params.network, tier := params.tier }

def ownSlots : List Nat :=
  match peerCredentialSlotBase params.participants params.myPubkey with
  | .ok base =>
    (List.range (params.myContribution.inputs.length + params.myContribution.outputs.length)).map
      (fun i => base + i)
  | .error _ => []

def ownComponents : List Fusion.Component :=
  List.zipWith (componentOfInput hexToBin) params.myContribution.inputs params.inputSalts ++
    List.zipWith (componentOfOutput hexToBin) params.myContribution.outputs params.outputSalts

end CoordinatorParams

namespace CoordinatorRound

variable (params : CoordinatorParams) (self : CoordinatorRound)

def start (nullifiers : Nullifiers) : CoordinatorRound :=
  { credentialedInputs := params.myContribution.inputs.map inputKey
    anonymousInputs := []
    anonymousOutputBatches := []
    readyPeers := []
    credentialedPeers := [params.myPubkey]
    inputQuotaByPeer := [(params.myPubkey, params.myContribution.inputs.length)]
    outputQuotaByPeer := [(params.myPubkey, params.myContribution.outputs.length)]
    usedSlots := params.ownSlots
    seenNonces := []
    nullifiers
    assembled := none
    settled := false
    issued := params.ownComponents hexToBin }

def inputPool : List FusionInputRef := params.myContribution.inputs ++ self.anonymousInputs

def outputPool : List FusionOutputRef :=
  self.anonymousOutputBatches.flatten.map AuthorizedOnionOutput.output

def expectedInputCount : Nat := (self.inputQuotaByPeer.map Prod.snd).sum

def expectedOutputCount : Nat := (self.outputQuotaByPeer.map Prod.snd).sum

def fail : CoordinatorRound :=
  { self with settled := true, nullifiers := clearRoundNullifiers params.session self.nullifiers }

/- The end of a round by a report of blame. -/
def blameAndFail : CoordinatorRound := { self with settled := true }

--- Credentials

/- The nonce of a slot answers one challenge. -/
def signHex (slots : Nat) (used : List Nat) (request : Nat × String) : Except String (List Nat) :=
  if slots ≤ request.1 then .error ("blind nonce index " ++ toString request.1 ++ " out of range")
  else if request.1 ∈ used then
    .error ("blind nonce slot " ++ toString request.1 ++ " already used")
  else if (hexToBin request.2).length ≠ 32 then .error "blinded challenge must be 32 bytes"
  else .ok (request.1 :: used)

def handleCredentialRequest (sender : String) (request : CredentialRequestMessage)
    (hidden : List Fusion.Component) : CoordinatorRound :=
  if sender ∈ self.credentialedPeers then self.fail params
  else if request.requests.length ≠ request.inputCount + request.outputCount ∨
        request.amountCommitments.length ≠ request.requests.length ∨
        request.componentCommitments.length ≠ request.requests.length then
    self.fail params
  else if pedersenBalanceHolds hexToBin setup request.amountCommitments request.excessFee
          request.pedersenTotalNonce = false then
    self.blameAndFail
  else
    match peerCredentialSlotBase params.participants sender with
    | .error _ => self.fail params
    | .ok base =>
      if request.requests.any
          (fun slot => slot.1 < base ||
              base + credentialSlotsPerPeer ≤ slot.1) then
        self.blameAndFail
      else
        match request.requests.foldlM
            (signHex hexToBin (params.participants.length * credentialSlotsPerPeer))
            self.usedSlots with
        | .error _ => self.fail params
        | .ok used =>
          { self with
            usedSlots := used
            credentialedPeers := self.credentialedPeers ++ [sender]
            inputQuotaByPeer := self.inputQuotaByPeer ++ [(sender, request.inputCount)]
            outputQuotaByPeer := self.outputQuotaByPeer ++ [(sender, request.outputCount)]
            issued := self.issued ++ hidden }

--- Components

def inputCredentialMessageHashHex (input : FusionInputRef) (saltCommitmentHex : String) :
    Except String String :=
  (inputCredentialMessageHash hexToBin sha256 input saltCommitmentHex).map
    (fun hash => hexString hash.toList)

/- An input with its signature and its salt. -/
def checkInput (entry : FusionInputRef × String × String) : Except String Unit := do
  let msgHex ← inputCredentialMessageHashHex hexToBin sha256 entry.1 entry.2.2
  if verifyBchSchnorrHex hexToBin curve sha256
      params.issuerPubkey entry.2.1 msgHex then .ok ()
  else .error "invalid input credential"

def addCredentialedInput (credentialed : List String) (input : FusionInputRef) :
    Except String (List String) :=
  if inputKey input ∈ credentialed then .error "duplicate outpoint in round"
  else .ok (inputKey input :: credentialed)

def acceptInputs (inputs : List FusionInputRef) (sigs saltCommitments : List String) :
    Except String CoordinatorRound :=
  if inputs.length ≠ sigs.length ∨ inputs.length ≠ saltCommitments.length then
    .error "input/credential/salt count mismatch"
  else if self.expectedInputCount < (self.inputPool params).length + inputs.length then
    .error "input credential quota exceeded"
  else do
    let _ ← (inputs.zip (sigs.zip saltCommitments)).mapM (checkInput curve hexToBin sha256 params)
    let credentialed ← inputs.foldlM addCredentialedInput self.credentialedInputs
    .ok
      { self with
        credentialedInputs := credentialed
        anonymousInputs := self.anonymousInputs ++ inputs }

/- Amounts are balanced, roughly. -/
def outputsReady : Bool :=
  let pool := self.outputPool
  let inputs := self.inputPool params
  let fee := (inputs.map FusionInputRef.value).sum - (pool.map FusionOutputRef.value).sum
  let roughMax := ⌈((10 + inputs.length * 150 + pool.length * 40 : ℚ) * params.feerate) / 1000⌉ * 3
  pool.length ≠ 0 && inputs.length = self.expectedInputCount &&
    inputs.length ≠ 0 && 0 ≤ fee && fee ≤ max roughMax 50000

def tryAssemble : CoordinatorRound :=
  let inputs := self.inputPool params
  if self.settled ∨ self.assembled.isSome ∨ self.readyPeers.length ≠ params.participants.length then
    self
  else if self.outputsReady params = false then self
  else if self.inputQuotaByPeer.length ≠ params.participants.length ∨
        inputs.length ≠ self.expectedInputCount then
    self
  else if inputs.any
        (fun input => !self.credentialedInputs.contains
            (inputKey input)) then
    self
  else
    match assembleFusionTx
        [{ inputs, outputs := self.outputPool }] with
    | .error _ => self.fail params
    | .ok draft =>
      let fee := totalIn draft - totalOut draft
      let required :=
        ⌈((10 +
            (draft.inputs.map (fun i => (108 + i.pubkey.length / 2 : ℚ))).sum +
            (draft.outputs.map (fun o => (9 + o.script.length / 2 : ℚ))).sum) *
            params.feerate) / 1000⌉
      if fee < 0 ∨ required * 3 < fee then self.fail params
      else { self with assembled := some draft }

/- The one batch of outputs comes when every peer has its credentials, and not from a participant.
   -/
def onOutputs (sender : String) (outputs : List AuthorizedOnionOutput) : CoordinatorRound :=
  if self.assembled.isSome then self
  else if sender ∈ params.participants ∨
        self.outputQuotaByPeer.length ≠ params.participants.length ∨
        self.anonymousOutputBatches.length ≠ 0 ∨
        outputs.length ≠ self.expectedOutputCount then
    self.fail params
  else
    match verifyAuthorizedOutputBatch hexToBin curve sha256 outputs self.expectedOutputCount
        params.issuerPubkey params.context with
    | .error _ => self.fail params
    | .ok serials =>
      let consumed := consumeOutputNullifiers params.session serials self.nullifiers
      if consumed.1 = false then self.fail params
      else tryAssemble params
          { self with
            nullifiers := consumed.2
            anonymousOutputBatches := self.anonymousOutputBatches ++ [outputs] }

def addReady (peer : String) : CoordinatorRound :=
  tryAssemble params
    { self with
      readyPeers :=
        if peer ∈ self.readyPeers then self.readyPeers
        else self.readyPeers ++ [peer] }

--- Steps

/- Inputs and outputs come from keys that are thrown away. -/
def onMessage (sender : String) : RoundMessage → CoordinatorRound
  | .componentsReady =>
    if sender ∈ params.others then self.addReady params sender
    else self
  | .abort _ => if sender ∈ params.others then self.fail params else self
  | .inputs inputs credentialSigs saltCommitments =>
    match acceptInputs curve hexToBin sha256 params self inputs credentialSigs saltCommitments with
    | .error _ => self.fail params
    | .ok next => next.tryAssemble params
  | .outputs outputs => onOutputs curve hexToBin sha256 params self sender outputs

/- Messages of other sessions are dropped, and those that were seen. -/
def hears (session nonce : String) : Bool :=
  session = params.session && !self.settled && !self.seenNonces.contains nonce

def noted (nonce : String) : CoordinatorRound :=
  { self with seenNonces := nonce :: self.seenNonces }

def step : CoordinatorEvent → CoordinatorRound
  | .request session sender nonce request hidden =>
    if self.hears params session nonce then
      if sender ∈ params.others then
        handleCredentialRequest curve hexToBin setup params (self.noted nonce) sender request hidden
      else self.noted nonce
    else self
  | .message session sender nonce message =>
    if self.hears params session nonce then
      onMessage curve hexToBin sha256 params (self.noted nonce) sender message
    else self
  | .injected =>
    if self.settled then self
    else self.addReady params params.myPubkey
  | .stopped => if self.settled then self else self.fail params

end CoordinatorRound

end OptnWallet.Nostr
