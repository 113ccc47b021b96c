import OptnWallet.Core.Fusion.Pedersen
import OptnWallet.Nostr.BlindSchnorr

/-
  Requests for the credentials of a whole contribution.  Each component is committed to with what
  it contributes, an input with its value less a fee and an output with its value and a fee taken
  away, and the sum is the excess fee.

  Main declarations:
    * `Nostr.pedersenCommit`
    * `Nostr.pedersenBalanceHolds`
    * `Nostr.builtInput` and `Nostr.builtOutput`
    * `Nostr.buildComponentCredentialRequests`
-/

namespace OptnWallet.Nostr

--- Balance

section Balance

open Schnorr (Curve toBytes)

variable {n : Nat} {Point : Type} [AddCommGroup Point] [Module (ZMod n) Point] [DecidableEq Point]
variable {curve : Curve n Point} (hexToBin : String → List UInt8) (setup : Pedersen.Setup curve)

def amountAsI64 (amount : Int) : Except String Int64 :=
  if isSafeInteger amount then .ok (Int64.ofInt amount)
  else .error "pedersen amount must be a safe integer"

structure Commitment where
  commitmentHex : String
  nonceHex : String
deriving DecidableEq

/- The nonce is drawn, and is not zero. -/
def pedersenCommit (amount : Int) (nonce : ZMod n) : Except (Fault String) Commitment := do
  let value ← (amountAsI64 amount).mapError Fault.error
  let commitment ← Pedersen.encodeUncompressed setup (Pedersen.commitPointSigned setup value nonce)
  .ok { commitmentHex := hexString commitment.toList, nonceHex := hexString (toBytes nonce).toList }

/- The sum of the points, if all of them can be parsed. -/
def sumPoints (curve : Curve n Point) : List (List UInt8) → Option Point
  | [] => some 0
  | encoded :: rest =>
    match curve.parsePoint encoded with
    | .error _ => none
    | .ok point => (sumPoints curve rest).map (fun sum => point + sum)

/- Whatever is thrown is refused. -/
def pedersenBalanceHolds (commitmentHexes : List String) (excessFee : Int)
    (totalNonceHex : String) : Bool :=
  let commitments := commitmentHexes.map hexToBin
  if commitments.length = 0 ∨ commitments.any (fun commitment => commitment.length ≠ 65) then false
  else
    match amountAsI64 excessFee with
    | .error _ => false
    | .ok fee =>
      match sumPoints curve commitments with
      | none => false
      | some sum =>
        match scalarFrom (n := n) (hexToBin totalNonceHex) with
        | none => false
        | some nonce => sum = Pedersen.commitPointSigned setup fee nonce

/- The nonces were drawn, so that each of them is a scalar. -/
def sumNoncesHex (nonces : List (ZMod n)) : String :=
  if nonces.length = 0 then hexString (List.replicate 32 0)
  else hexString (toBytes nonces.sum).toList

end Balance

--- Requests

open Schnorr (Curve)

variable {n : Nat} {Point : Type} [AddCommGroup Point] [Module (ZMod n) Point] [DecidableEq Point]
variable {curve : Curve n Point} (hexToBin : String → List UInt8)
variable (sha256 : List UInt8 → Vector UInt8 32) (setup : Pedersen.Setup curve)

def componentFeeSats (sizeBytes : ℚ) (feerate : Nat) : Int := ⌈sizeBytes * feerate / 1000⌉

/- What is drawn at random for one component.  Drawn scalars are not zero. -/
structure ComponentDraws (n : Nat) where
  salt : Vector UInt8 32
  nonce : ZMod n
  serial : Vector UInt8 32
  a : ZMod n
  b : ZMod n
  nonce_ne_zero : nonce ≠ 0
  a_ne_zero : a ≠ 0
  b_ne_zero : b ≠ 0

/- An input is opened with its outpoint, and an output with its serial. -/
inductive OpenedComponent where
  | input (outpoint : String)
  | output (credentialSerial : String)
deriving DecidableEq

structure ComponentCommitmentOpening where
  component : OpenedComponent
  slotIndex : Nat
  openingHex : String
  saltHex : String
  pedersenNonceHex : String
deriving DecidableEq

/- The announcement of an issuer. -/
structure IssuerPoints where
  roundPubkey : String
  blindNoncePoints : List String

structure BuiltComponent (n : Nat) where
  index : Nat
  pending : PendingRequest n
  contributionAmount : Int
  nonce : ZMod n
  commitment : Commitment
  saltedComponentHash : String
  saltCommitmentHex : String
  opening : ComponentCommitmentOpening

def noncePoint (points : IssuerPoints) (index : Nat) : Except String String :=
  let missing := "missing blind nonce point at slot " ++ toString index
  match points.blindNoncePoints[index]? with
  | some r => if r = "" then .error missing else .ok r
  | none => .error missing

variable (points : IssuerPoints)

/- What both kinds of components have in common, once the bytes and the message of the component are
   known. -/
def builtComponent (index : Nat) (draws : ComponentDraws n) (contributionAmount : Int)
    (component : List UInt8) (message : Except String (Vector UInt8 32)) (opened : OpenedComponent)
    (r : String) : Except (Fault String) (BuiltComponent n) := do
  let commitment ← pedersenCommit setup contributionAmount draws.nonce
  let messageHash ← message.mapError Fault.error
  let pending ←
    PendingRequest.create hexToBin curve sha256 points.roundPubkey r messageHash draws.a draws.b
  let saltHex := hexString draws.salt.toList
  let salted ← (saltedComponentHashHex hexToBin sha256 saltHex component).mapError Fault.error
  .ok
    { index
      pending
      contributionAmount
      nonce := draws.nonce
      commitment
      saltedComponentHash := salted
      saltCommitmentHex := hexString (sha256 draws.salt.toList).toList
      opening :=
        { component := opened
          slotIndex := index
          openingHex := pending.openingHex
          saltHex
          pedersenNonceHex := commitment.nonceHex } }

def inputAmount (feerate : Nat) (input : FusionInputRef) : Int :=
  input.value - componentFeeSats (108 + input.pubkey.length / 2) feerate

def outputAmount (feerate : Nat) (output : FusionOutputRef) : Int :=
  -(output.value + componentFeeSats (9 + output.script.length / 2) feerate)

def builtInput (feerate index : Nat) (draws : ComponentDraws n) (input : FusionInputRef) :
    Except (Fault String) (BuiltComponent n) := do
  let r ← (noncePoint points index).mapError Fault.error
  let saltCommitmentHex := hexString (sha256 draws.salt.toList).toList
  let component ← (encodeInputComponent hexToBin
      { prevTxidDisplayHex := input.prevTxid
        prevIndex := input.prevIndex
        pubkeyHex := input.pubkey
        amount := input.value
        saltCommitmentHex }).mapError
      Fault.error
  builtComponent hexToBin sha256 setup points index draws (inputAmount feerate input) component
    (inputCredentialMessageHash hexToBin sha256 input saltCommitmentHex) (.input (inputKey input)) r

def builtOutput (context : FusionCredentialContext) (feerate index : Nat) (draws : ComponentDraws n)
    (output : FusionOutputRef) : Except (Fault String) (BuiltComponent n) := do
  let r ← (noncePoint points index).mapError Fault.error
  let serial := hexString draws.serial.toList
  let saltCommitmentHex := hexString (sha256 draws.salt.toList).toList
  let component ← (encodeOutputComponent hexToBin
      { scriptHex := output.script, amount := output.value, saltCommitmentHex }).mapError
      Fault.error
  builtComponent hexToBin sha256 setup points index draws (outputAmount feerate output) component
    (outputCredentialMessageHash hexToBin sha256 context output serial saltCommitmentHex)
    (.output serial) r

/- The salted hash and the commitment of a component. -/
structure InitialComponentCommitment where
  index : Nat
  saltedComponentHash : String
  amountCommitment : String
deriving DecidableEq

structure CredentialRequests (n : Nat) where
  requests : List (Nat × String)
  componentCommitments : List InitialComponentCommitment
  amountCommitments : List String
  pedersenTotalNonce : String
  excessFee : Int
  pending : List (PendingRequest n)
  indices : List Nat
  outputSerials : List String
  inputSaltCommitments : List String
  outputSaltCommitments : List String
  componentOpenings : List ComponentCommitmentOpening

/- The components in their places: the inputs come first. -/
def builtRows (context : FusionCredentialContext) (feerate base : Nat)
    (draws : Nat → ComponentDraws n) (contribution : PeerContribution) :
    Except (Fault String) (List (BuiltComponent n) × List (BuiltComponent n)) := do
  let inputs ← contribution.inputs.zipIdx.mapM
      (fun entry =>
        builtInput hexToBin sha256 setup points feerate (base + entry.2) (draws entry.2) entry.1)
  let outputs ← contribution.outputs.zipIdx.mapM
      (fun entry => builtOutput hexToBin sha256 setup points context feerate
          (base + contribution.inputs.length + entry.2)
          (draws (contribution.inputs.length + entry.2)) entry.1)
  .ok (inputs, outputs)

def negativeExcess : String :=
  "pedersen excess fee is negative — outputs+fees exceed inputs"

def serialOf : OpenedComponent → Option String
  | .input _ => none
  | .output credentialSerial => some credentialSerial

def requestsOf (inputs outputs : List (BuiltComponent n)) : CredentialRequests n :=
  let rows := inputs ++ outputs
  { requests := rows.map (fun row => (row.index, row.pending.requestHex))
    componentCommitments :=
      rows.map
        (fun row =>
          { index := row.index
            saltedComponentHash := row.saltedComponentHash
            amountCommitment := row.commitment.commitmentHex })
    amountCommitments := rows.map (fun row => row.commitment.commitmentHex)
    pedersenTotalNonce := sumNoncesHex (rows.map BuiltComponent.nonce)
    excessFee := (rows.map BuiltComponent.contributionAmount).sum
    pending := rows.map BuiltComponent.pending
    indices := rows.map BuiltComponent.index
    outputSerials := outputs.filterMap (fun row => serialOf row.opening.component)
    inputSaltCommitments := inputs.map BuiltComponent.saltCommitmentHex
    outputSaltCommitments := outputs.map BuiltComponent.saltCommitmentHex
    componentOpenings := rows.map BuiltComponent.opening }

def buildComponentCredentialRequests (contribution : PeerContribution) (participants : List String)
    (myPubkey : String) (points : IssuerPoints) (context : FusionCredentialContext) (feerate : Nat)
    (draws : Nat → ComponentDraws n) : Except (Fault String) (CredentialRequests n) := do
  let base ← (peerCredentialSlotBase participants myPubkey).mapError Fault.error
  let componentCount := contribution.inputs.length + contribution.outputs.length
  if credentialSlotsPerPeer < componentCount then
    .error
      (.error ("too many components for credential slots (" ++ toString componentCount ++ " > " ++
          toString credentialSlotsPerPeer ++ ")"))
  else do
    let rows ← builtRows hexToBin sha256 setup points context feerate base draws contribution
    if ((rows.1 ++ rows.2).map
          BuiltComponent.contributionAmount).sum < 0 then
      .error (.error negativeExcess)
    else .ok (requestsOf rows.1 rows.2)

end OptnWallet.Nostr
