import OptnWallet.Core.Fusion.Schnorr.Blind
import OptnWallet.Fusion.Balance
import OptnWallet.Fusion.Ownership
import OptnWallet.Fusion.Session

/-
  A fusion with a server: the pool, and the rounds that follow until one completes.  Each round
  commits to components, checks the list that all players share, and signs the own inputs of the
  transaction that it makes.

  Main declarations:
    * `Fusion.ServerMessage` and `Fusion.World`
    * `Fusion.signInputs`
    * `Fusion.playRound` and `Fusion.RoundRecord`
    * `Fusion.runFusion`
-/

--- Messages

namespace OptnWallet.Fusion

open Overflow (Mode)
open Schnorr (Curve Signature BlindSignatureRequest fromRepr)

structure TierStatus where
  players : Option UInt32
  minPlayers : Option UInt32
  timeRemaining : Option UInt32

structure StartRound where
  roundPubkey : Received
  blindNoncePoints : List (List UInt8)
  serverTime : UInt64

/- No list is longer than the frame it came in. -/
structure ReceivedList where
  items : List Received
  length_lt : items.length < 2 ^ 32

def ReceivedList.blobs (list : ReceivedList) : List (List UInt8) := list.items.map Received.bytes

structure ShareCovertComponents where
  components : ReceivedList
  skipSignatures : Option Bool
  sessionHash : Option (List UInt8)

structure FusionResult where
  ok : Bool
  txsignatures : List (List UInt8)
  badComponents : List UInt32

inductive ServerMessage where
  | serverHello (hello : ServerHello)
  | tierStatusUpdate (statuses : List (UInt64 × TierStatus))
  | fusionBegin (start : FusionBegin)
  | startRound (start : StartRound)
  | blindSigResponses (scalars : List (List UInt8))
  | allCommitments (initialCommitments : ReceivedList)
  | shareCovertComponents (share : ShareCovertComponents)
  | fusionResult (result : FusionResult)
  | theirProofsList
  | restartRound
  | error (message : Option String)

/- What a receive meets: a message, or the error of a connection, a decoder or a user that cancels.
   -/
abbrev Event := Except String ServerMessage

def receive (label : String) : List Event → Except String (ServerMessage × List Event)
  | [] => .error ("timed out waiting for " ++ label)
  | event :: events => event.map (fun message => (message, events))

/- A message of one kind.  Errors of the server and messages of other kinds end the fusion. -/
def expect {α : Type} (label failure unexpected : String) (pick : ServerMessage → Option α)
    (events : List Event) : Except String (α × List Event) := do
  let (message, events) ← receive label events
  match message with
  | .error text => .error (failure ++ ": " ++ text.getD "")
  | other =>
    match pick other with
    | some a => .ok (a, events)
    | none => .error unexpected

def expectServerHello : List Event → Except String (ServerHello × List Event) :=
  expect "ServerHello" "server rejected hello"
    "expected ServerHello"
    (fun message =>
      match message with
      | .serverHello hello => some hello
      | _ => none)

def expectStartRound : List Event → Except String (StartRound × List Event) :=
  expect "StartRound" "server error at start"
    "expected StartRound"
    (fun message =>
      match message with
      | .startRound start => some start
      | _ => none)

def expectBlindSigResponses : List Event → Except String (List (List UInt8) × List Event) :=
  expect "BlindSigResponses" "server error at blind sigs"
    "expected BlindSigResponses"
    (fun message =>
      match message with
      | .blindSigResponses scalars => some scalars
      | _ => none)

def expectAllCommitments : List Event → Except String (ReceivedList × List Event) :=
  expect "AllCommitments" "server error at all-commitments"
    "expected AllCommitments"
    (fun message =>
      match message with
      | .allCommitments list => some list
      | _ => none)

def expectShare : List Event → Except String (ShareCovertComponents × List Event) :=
  expect "ShareCovertComponents"
    "server error at share-components"
    "expected ShareCovertComponents"
    (fun message =>
      match message with
      | .shareCovertComponents share => some share
      | _ => none)

def expectTheirProofs : List Event → Except String (Unit × List Event) :=
  expect "TheirProofsList" "server error during blame proofs"
    "expected TheirProofsList"
    (fun message =>
      match message with
      | .theirProofsList => some ()
      | _ => none)

def expectRestart : List Event → Except String (Unit × List Event) :=
  expect "RestartRound" "server rejected blame"
    "expected RestartRound after blame"
    (fun message =>
      match message with
      | .restartRound => some ()
      | _ => none)

def expectResult (events : List Event) : Except String (FusionResult × List Event) := do
  let (message, events) ← receive "FusionResult" events
  match message with
  | .fusionResult result => .ok (result, events)
  | .restartRound => .error "server sent RestartRound before the blame exchange"
  | .error text => .error ("server error at result: " ++ text.getD "")
  | _ => .error "expected FusionResult"

--- The World Around

/- What one round meets beside the messages: clocks, the user, the connections, and what is drawn at
   random.  The proofs of a blame phase are opaque here. -/
structure RoundWorld (n : Nat) where
  clock : Option UInt64
  warmup : Except String Unit
  cancelBeforeCommit : Except String Unit
  sendCommit : Except String Unit
  cancelBeforeComponents : Except String Unit
  submitComponents : Except String Unit
  signatureWindow : Bool
  submitSignatures : Except String Unit
  sendMyProofs : Except String Unit
  reviewTheirProofs : Except String Unit
  draws : Draws n

structure World (n : Nat) where
  cancel : Except String Unit
  sendHello : Except String Unit
  sendJoin : Except String Unit
  joinDeadline : Nat → Bool
  clock : Option UInt64
  revalidateOwnInputs : Except String Unit
  covertSlots : Except String Nat
  rounds : Nat → RoundWorld n

inductive Transport where
  | direct
  | tor
deriving DecidableEq

structure FusionRunParams where
  host : String
  tierPlans : List FusionTierPlan
  inputs : List FusionInputKey
  outputScripts : List (List UInt8)
  remoteTransport : Option Transport
  expectedHello : ServerHello

structure FusionOutcome where
  ok : Bool
  broadcastVerified : Bool
  txid : Option String
  txHex : Option String
  message : String
deriving DecidableEq

def stopped (message : String) : FusionOutcome :=
  { ok := false, broadcastVerified := false, txid := none, txHex := none, message }

def maxClockDiscrepancySecs : Nat := 5

def validateServerTime (clock : Option UInt64) (serverTime : UInt64) : Except String Unit :=
  match clock with
  | none => .error "local system clock is before the Unix epoch"
  | some now =>
    if maxClockDiscrepancySecs <
        (now.toNat - serverTime.toNat) + (serverTime.toNat - now.toNat) then
      .error ("CashFusion server clock differs by more than 5 " ++ "seconds")
    else .ok ()

--- The Pool

def helloMismatches (live expected : ServerHello) (liveTiers expectedTiers : List UInt64) :
    List String :=
  (if liveTiers ≠ expectedTiers then ["tiers"] else []) ++
    (if live.numComponents ≠ expected.numComponents then ["num_components"] else []) ++
    (if live.componentFeerate ≠ expected.componentFeerate then ["component_feerate"] else []) ++
    (if live.minExcessFee ≠ expected.minExcessFee then ["min_excess_fee"] else []) ++
    (if live.maxExcessFee ≠ expected.maxExcessFee then ["max_excess_fee"] else [])

def validateHelloMatch (live expected : ServerHello) : Except String Unit := do
  let liveTiers ← canonicalTiers live.tiers
  let expectedTiers ← canonicalTiers expected.tiers
  let mismatches := helloMismatches live expected liveTiers expectedTiers
  if mismatches = [] then .ok ()
  else
    .error
      ("live ServerHello does not match the expected snapshot " ++ "(changed: " ++
        ", ".intercalate mismatches ++ ")")

/- The tier that had the most players, with the number that starts it. -/
def betterTier (best : Option (UInt64 × UInt32 × UInt32)) (entry : UInt64 × TierStatus) :
    Option (UInt64 × UInt32 × UInt32) :=
  let players := entry.2.players.getD 0
  let here := some (entry.1, players, entry.2.minPlayers.getD 0)
  match best with
  | none => here
  | some (_, bestPlayers, _) => if bestPlayers < players then here else best

def inactivityMessage (best : Option (UInt64 × UInt32 × UInt32)) (registered : Nat) : String :=
  let detail :=
    match best with
    | some (tier, players, minPlayers) =>
      "best tier " ++ toString tier ++ " sats had " ++ toString players ++ "/" ++
        toString minPlayers ++ " players"
    | none => "the server never reported pool status"
  "stopping due to inactivity (" ++ detail ++ "); registered " ++ toString registered ++ " tier(s)"

/- The first tier that begins, or the outcome of a wait that was too long.  An update that names a
   time is never too late. -/
def awaitBegin (deadline : Nat → Bool) (registered : Nat) :
    Nat →
    Option (UInt64 × UInt32 × UInt32) →
    List Event →
    Except String (FusionOutcome ⊕ (FusionBegin × List Event))
  | _, _, [] => .error "timed out waiting for Fusion server pool status"
  | updates, best, event :: events => do
      match ← event with
      | .tierStatusUpdate statuses =>
        let best := statuses.foldl betterTier best
        let hasBesttime := statuses.any (fun entry => entry.2.timeRemaining.isSome)
        if !hasBesttime && deadline updates then
          .ok (.inl (stopped (inactivityMessage best registered)))
        else awaitBegin deadline registered (updates + 1) best events
      | .fusionBegin start => .ok (.inr (start, events))
      | .error text => .error ("server error while queued: " ++ text.getD "")
      | _ => awaitBegin deadline registered updates best events

def isLocalServer (host : String) : Bool :=
  host == "localhost" || host == "127.0.0.1" || host == "::1"

def selectCovertTransport (mainHost covertHost : String) (remoteTransport : Option Transport) :
    Except String Transport :=
  if isLocalServer mainHost && isLocalServer covertHost then .ok .direct
  else if remoteTransport = some .tor then .ok .tor
  else .error "CashFusion covert endpoint requires a verified Tor route"

def covertDomain (bytes : List UInt8) : Except String String :=
  if bytes.any (fun byte => decide (128 ≤ byte)) then
    if (String.fromUTF8? ⟨bytes.toArray⟩).isSome then
      .error "server returned an invalid covert domain"
    else .error "server returned a non-ASCII covert domain"
  else if bytes = [] then .error "server returned an invalid covert domain"
  else .ok (String.ofList (bytes.map (fun byte => Char.ofNat byte.toNat)))

/- What a fusion keeps over its rounds. -/
structure FusionSession where
  hello : ServerHello
  tier : UInt64
  plan : FusionTierPlan
  outputScripts : List (List UInt8)
  initialHash : Vector UInt8 32

variable {n : Nat}

def indexPlans (params : FusionRunParams) (hello : ServerHello) :
    Except String (BTreeMap UInt64 FusionTierPlan) :=
  validateAndIndexPlans hello (params.inputs.map (fun input => input.pubkey))
    (params.inputs.map (fun input => input.value)) params.outputScripts params.tierPlans

variable (sha256 : List UInt8 → Vector UInt8 32)

/- The checks of the tier that began, before its first round. -/
def beginSession (params : FusionRunParams) (world : World n) (hello : ServerHello)
    (plans : BTreeMap UInt64 FusionTierPlan) (start : FusionBegin) :
    Except (Fault String) FusionSession := do
  (validateServerTime world.clock start.serverTime).mapError Fault.error
  let plan ←
    (okOr "server began a tier the wallet did not register" (plans.get? start.tier)).mapError
      Fault.error
  if params.outputScripts.length < plan.outputValues.length then .error .panic
  else do
    let domain ← (covertDomain start.covertDomain.bytes).mapError Fault.error
    if 2 ^ 16 ≤ start.covertPort.toNat ∨ start.covertPort = 0 then
      .error (.error "server returned an invalid covert port")
    else do
      let _ ← (selectCovertTransport params.host domain params.remoteTransport).mapError Fault.error
      world.revalidateOwnInputs.mapError Fault.error
      .ok
        { hello
          tier := start.tier
          plan
          outputScripts := params.outputScripts.take plan.outputValues.length
          initialHash :=
            calcInitialHash sha256 start.tier start.covertDomain.bytes start.covertPort
              start.covertSsl start.serverTime }

/- From the hello to the tier that begins. -/
def joinPool (params : FusionRunParams) (world : World n) (events : List Event) :
    Except (Fault String) (FusionOutcome ⊕ (FusionSession × List Event)) := do
  if params.inputs.isEmpty then .error (.error "no inputs to fuse")
  else do
    world.cancel.mapError Fault.error
    world.sendHello.mapError Fault.error
    let (hello, events) ← (expectServerHello events).mapError Fault.error
    (validateServerHello hello).mapError Fault.error
    (validateHelloMatch hello params.expectedHello).mapError Fault.error
    let plans ← (indexPlans params hello).mapError Fault.error
    world.sendJoin.mapError Fault.error
    let waited ←
      (awaitBegin world.joinDeadline plans.entries.length 0 none events).mapError Fault.error
    match waited with
    | .inl outcome => .ok (.inl outcome)
    | .inr (start, events) => do
        let session ← beginSession sha256 params world hello plans start
        .ok (.inr (session, events))

--- Commitments Of A Round

variable {Point : Type} [AddCommGroup Point] [Module (ZMod n) Point] [DecidableEq Point]
variable (components : Wire Component) (curve : Curve n Point) (setup : Pedersen.Setup curve)
variable (ripemd160 : List UInt8 → Vector UInt8 20)
variable (hmac : List UInt8 → List UInt8 → Vector UInt8 32) (commitments : Wire InitialCommitment)

def recheckPlan (params : FusionRunParams) (session : FusionSession) (error : String) :
    Except String Unit := do
  let plans ← indexPlans params session.hello
  if plans.get? session.tier ≠ some session.plan then .error error
  else .ok ()

def fusionInput (key : FusionInputKey) : FusionInput :=
  { prevTxid := key.prevTxid, prevIndex := key.prevIndex, pubkey := key.pubkey, value := key.value }

/- What the wallet committed to in a round. -/
structure Committed (n : Nat) (Point : Type) where
  roundPubkey : Received
  roundTime : UInt64
  commit : RoundCommit n Point
  blindSigs : List Signature
  slotCount : Nat

def finalizeResponse (entry : BlindSignatureRequest n Point × List UInt8) :
    Except (Fault String) Signature :=
  if hLength : entry.2.length = 32 then
    entry.1.finalize curve sha256 (Vector.mk entry.2.toArray hLength) true
  else .error (.error "blind sig scalar not 32 bytes")

variable (mode : Mode)

def commitRound (params : FusionRunParams) (world : World n) (session : FusionSession)
    (number : Nat) (events : List Event) :
    Except (Fault String) (Committed n Point × List Event) := do
  let here := world.rounds number
  let (start, events) ← (expectStartRound events).mapError Fault.error
  (validateServerTime here.clock start.serverTime).mapError Fault.error
  -- The warmup is that of the first round.
  (if number = 0 then here.warmup else .ok ()).mapError Fault.error
  here.cancelBeforeCommit.mapError Fault.error
  (recheckPlan params session "selected tier plan changed before PlayerCommit").mapError Fault.error
  let commit ← buildRoundCommit components curve setup sha256 commitments
      here.draws mode (params.inputs.map fusionInput)
      ((session.outputScripts.zip
        session.plan.outputValues).map
          (fun entry => { scriptpubkey := entry.1, value := entry.2 }))
      session.hello.numComponents.toNat
      session.hello.componentFeerate start.roundPubkey.bytes
      start.blindNoncePoints
  if commit.excessFee ≠ session.plan.excessFee then
    .error (.error "selected tier excess fee changed before PlayerCommit")
  else do
    here.sendCommit.mapError Fault.error
    let (scalars, events) ← (expectBlindSigResponses events).mapError Fault.error
    if scalars.length ≠ commit.requests.length then
      .error (.error "blind sig response count mismatch")
    else do
      let blindSigs ← (commit.requests.zip scalars).mapM (finalizeResponse sha256 curve)
      here.cancelBeforeComponents.mapError Fault.error
      let slotCount ← world.covertSlots.mapError Fault.error
      if slotCount ≠ commit.componentsSorted.length then
        .error (.error ("covert slot count does not match the committed " ++ "components"))
      else
        .ok
          ({ roundPubkey := start.roundPubkey
             roundTime := start.serverTime
             commit
             blindSigs
             slotCount }, events)

--- Shared Lists

/- What all players shared in a round, as this one was told. -/
structure Transcript (n : Nat) (Point : Type) where
  lastHash : Vector UInt8 32
  committed : Committed n Point
  allCommitments : ReceivedList
  allComponents : ReceivedList
  declaredHash : Option (List UInt8)
  skipSignatures : Bool

def Transcript.round (self : Transcript n Point) : Round :=
  { roundPubkey := self.committed.roundPubkey
    serverTime := self.committed.roundTime
    commitments := self.allCommitments.items
    components := self.allComponents.items }

def receiveShared (world : World n) (number : Nat) (lastHash : Vector UInt8 32)
    (committed : Committed n Point) (events : List Event) :
    Except String (Transcript n Point × List Event) := do
  (world.rounds number).submitComponents
  let (allCommitments, events) ← expectAllCommitments events
  let (share, events) ← expectShare events
  .ok
    ({ lastHash
       committed
       allCommitments
       allComponents := share.components
       declaredHash := share.sessionHash
       skipSignatures := share.skipSignatures.getD false },
      events)

/- The own places in the shared lists, and the hash of the transcript. -/
structure Located where
  commitmentIndices : List Nat
  componentSlots : BTreeMap Nat Nat
  componentIndices : List Nat
  sessionHash : Vector UInt8 32

def locate (transcript : Transcript n Point) : Except String Located := do
  let commit := transcript.committed.commit
  let owned ← mapOwnedItems commit.playerCommit.initialCommitments transcript.allCommitments.blobs
      "commitments"
  let commitmentIndices ←
    globalIndicesInLocalOrder owned commit.playerCommit.initialCommitments.length "commitments"
  let componentSlots ←
    mapOwnedItems commit.componentsSorted transcript.allComponents.blobs "components"
  let componentIndices ←
    globalIndicesInLocalOrder componentSlots commit.componentsSorted.length "components"
  let sessionHash ← acceptHash sha256 transcript.lastHash transcript.round transcript.declaredHash
      transcript.skipSignatures
  .ok { commitmentIndices, componentSlots, componentIndices, sessionHash }

--- Signatures

def scalarFromPrivkey (bytes : Vector UInt8 32) : Except String (ZMod n) :=
  match fromRepr bytes with
  | some scalar => .ok scalar
  | none => .error "invalid private key (>= curve order)"

/- The message of a covert slot. -/
structure CovertSignature where
  roundPubkey : List UInt8
  whichInput : UInt32
  txsignature : Signature

/- The messages by slot, and the number of them. -/
structure Signing where
  messages : List (Option CovertSignature)
  signedInputs : Nat

variable (fuel : Nat)

section

variable (inputs : List FusionInputKey) (allComponents : List (List UInt8))
  (componentSlots : BTreeMap Nat Nat) (roundPubkey : List UInt8)

def signInput (tx : FusionTx) (state : Signing)
    (inputIndex : Nat) : Except (Fault String) Signing := do
  let componentIndex ←
    (okOr "missing component index" (tx.inputComponentIndex inputIndex)).mapError Fault.error
  let serialized ← orPanic allComponents[componentIndex]?
  let component ←
    (components.decode serialized).mapError (fun error => .error ("component decode: " ++ error))
  match component.component with
  | some (.input shared) => do
      let own ←
        (Matching.findFirst (fun input => inputMatchesComponent input shared) inputs).mapError
          Fault.error
      match own with
      | none => .ok state
      | some key => do
          let sighash ← (tx.sighash sha256 ripemd160 inputIndex).mapError Fault.error
          let secret ← (scalarFromPrivkey key.privkey).mapError Fault.error
          let signature ← Schnorr.sign curve sha256 hmac fuel secret sighash
          let slot ← (okOr "wallet input is missing its covert component slot"
                (componentSlots.get? componentIndex)).mapError Fault.error
          match state.messages[slot]? with
          | none => .error .panic
          | some (some _) =>
            .error (.error ("multiple transaction signatures mapped to " ++ "one covert slot"))
          | some none =>
            .ok
              { messages :=
                  state.messages.set slot
                    (some
                      { roundPubkey
                        whichInput := UInt32.ofNat inputIndex
                        txsignature := signature })
                signedInputs := state.signedInputs + 1 }
  | _ => .ok state

def signInputs (slotCount : Nat)
    (tx : FusionTx) : Except (Fault String) (List (Option CovertSignature)) := do
  let signed ← (List.range tx.numInputs).foldlM
      (signInput sha256 components curve ripemd160 hmac fuel inputs allComponents componentSlots
        roundPubkey tx)
      { messages := List.replicate slotCount none, signedInputs := 0 }
  if signed.signedInputs ≠ inputs.length then
    .error (.error "not every wallet input received a transaction signature")
  else .ok signed.messages

end

/- The transaction of a round and the signatures of the own inputs, before any of them is sent. -/
def prepareSignatures (params : FusionRunParams) (session : FusionSession)
    (transcript : Transcript n Point) (located : Located) (here : RoundWorld n) :
    Except (Fault String) (FusionTx × List (Option CovertSignature)) := do
  (recheckPlan params session "selected tier plan changed before signing").mapError Fault.error
  (verifySharedTransaction components transcript.allComponents.blobs params.inputs
      session.outputScripts session.plan.outputValues).mapError Fault.error
  let tx ←
    (FusionTx.fromComponents components transcript.allComponents.blobs located.sessionHash).mapError
      Fault.error
  let messages ← signInputs sha256 components curve ripemd160 hmac fuel params.inputs
      transcript.allComponents.blobs located.componentSlots transcript.committed.roundPubkey.bytes
      transcript.committed.slotCount tx
  if here.signatureWindow then .ok (tx, messages)
  else .error (.error ("shared transaction verification missed the " ++ "signature window"))

/- The two halves of 64 bytes. -/
def checkRelayed (tx : FusionTx) (entry : List UInt8 × Nat) : Except (Fault String) Unit :=
  if hLength : entry.1.length = 64 then do
    let pubkey ←
      (okOr "transaction input is missing a public key" (tx.inputPubkey entry.2)).mapError
        Fault.error
    let sighash ← (tx.sighash sha256 ripemd160 entry.2).mapError Fault.error
    let valid ← Schnorr.verify curve sha256 pubkey
        { rx := ⟨(entry.1.take 32).toArray, by simp [hLength]⟩
          s := ⟨(entry.1.drop 32).toArray, by simp [hLength]⟩ }
        sighash
    if valid then .ok ()
    else .error (.error "server relayed an invalid transaction signature")
  else .error (.error "server relayed a bad-length signature")

def verifyTransactionSignatures (tx : FusionTx) (signatures : List (List UInt8)) :
    Except (Fault String) Unit :=
  if signatures.length ≠ tx.numInputs then
    .error (.error "server returned wrong number of signatures")
  else signatures.zipIdx.foldlM (fun _ entry => checkRelayed sha256 curve ripemd160 tx entry) ()

--- Rounds

/- Proofs are sent and reviewed, and nothing else is. -/
def runBlamePhase (here : RoundWorld n) (events : List Event) : Except String (List Event) := do
  here.sendMyProofs
  let (_, events) ← expectTheirProofs events
  here.reviewTheirProofs
  let (_, events) ← expectRestart events
  .ok events

/- What a round showed: the transcript that was shared, and the messages that were given to the
   covert slots for the transaction. -/
structure RoundRecord (n : Nat) (Point : Type) where
  transcript : Option (Transcript n Point)
  signed : Option (List (Option CovertSignature))

inductive RoundEnd where
  | failed (fault : Fault String)
  | restarted (lastHash : Vector UInt8 32) (events : List Event)
  | finished (outcome : FusionOutcome)

/- The blame phase, after which the round is played again. -/
def blameThenRestart (here : RoundWorld n) (sessionHash : Vector UInt8 32) (events : List Event) :
    RoundEnd :=
  match runBlamePhase here events with
  | .ok events => .restarted sessionHash events
  | .error error => .failed (.error error)

/- The signed transaction that the server relayed. -/
def completed (tx : FusionTx) (signatures : List (List UInt8)) :
    Except (Fault String) FusionOutcome := do
  verifyTransactionSignatures sha256 curve ripemd160 tx signatures
  let raw ← (tx.serialize signatures).mapError Fault.error
  let txid ← (tx.txid sha256 signatures).mapError Fault.error
  .ok
    { ok := true
      broadcastVerified := false
      txid := some txid
      txHex := some (hexString raw)
      message :=
        "fully signed transaction assembled; broadcast is not " ++ "independently verified" }

/- What follows once the signatures are being submitted. -/
def concludeRound (here : RoundWorld n) (located : Located) (tx : FusionTx) (events : List Event) :
    RoundEnd :=
  match here.submitSignatures with
  | .error error => .failed (.error error)
  | .ok () =>
    match expectResult events with
    | .error error => .failed (.error error)
    | .ok (result, events) =>
      if result.ok then
        match completed sha256 curve ripemd160 tx result.txsignatures with
        | .ok outcome => .finished outcome
        | .error fault => .failed fault
      else if result.badComponents.any (fun bad => located.componentIndices.contains bad.toNat)
          then
        .failed (.error ("server identified one of this wallet's valid " ++ "components as bad"))
      else blameThenRestart here located.sessionHash events

def playRound (params : FusionRunParams) (world : World n) (session : FusionSession) (number : Nat)
    (lastHash : Vector UInt8 32) (events : List Event) : RoundRecord n Point × RoundEnd :=
  let here := world.rounds number
  match commitRound sha256 components curve setup commitments mode params world session number
        events with
  | .error fault => (⟨none, none⟩, .failed fault)
  | .ok (committed, events) =>
    match receiveShared world number lastHash committed events
        with
    | .error error => (⟨none, none⟩, .failed (.error error))
    | .ok (transcript, events) =>
      match locate sha256 transcript with
      | .error error => (⟨some transcript, none⟩, .failed (.error error))
      | .ok located =>
        if transcript.skipSignatures then
          (⟨some transcript, none⟩, blameThenRestart here located.sessionHash events)
        else
          match prepareSignatures sha256 components curve ripemd160 hmac fuel params session
                transcript located here with
          | .error fault => (⟨some transcript, none⟩, .failed fault)
          | .ok (tx, messages) => (⟨some transcript, some messages⟩,
              concludeRound sha256 curve ripemd160 here located tx events)

--- Fusions

def maxRoundsPerSession : Nat := 25

/- The plan of the tier that began is kept for readers. -/
structure FusionRun (n : Nat) (Point : Type) where
  outcome : Except (Fault String) FusionOutcome
  plan : Option FusionTierPlan
  rounds : List (RoundRecord n Point)

def playRounds (mode : Mode) (fuel : Nat) (params : FusionRunParams) (world : World n)
    (session : FusionSession) :
    Nat →
    Nat →
    Vector UInt8 32 →
    List Event →
    Except (Fault String) FusionOutcome × List (RoundRecord n Point)
  | 0, _, _, _ => (.ok
        (stopped
          ("fusion server restarted the round " ++ toString maxRoundsPerSession ++
            " times without completing")), [])
  | remaining + 1, number, lastHash, events =>
    let (record, finish) :=
      playRound sha256 components curve setup ripemd160 hmac commitments mode fuel params world
        session number lastHash events
    match finish with
    | .failed fault => (.error fault, [record])
    | .finished outcome => (.ok outcome, [record])
    | .restarted lastHash events =>
      let rest := playRounds mode fuel params world session remaining (number + 1) lastHash events
      (rest.1, record :: rest.2)

def runFusion (params : FusionRunParams) (world : World n) (events : List Event) :
    FusionRun n Point :=
  match joinPool sha256 params world events with
  | .error fault => { outcome := .error fault, plan := none, rounds := [] }
  | .ok (.inl outcome) => { outcome := .ok outcome, plan := none, rounds := [] }
  | .ok (.inr (session, events)) =>
    let played :=
      playRounds sha256 components curve setup ripemd160 hmac commitments mode fuel params world
        session maxRoundsPerSession 0 session.initialHash events
    { outcome := played.1, plan := some session.plan, rounds := played.2 }

end OptnWallet.Fusion
