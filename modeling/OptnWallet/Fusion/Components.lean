import OptnWallet.Core.Fusion.Pedersen
import OptnWallet.Fusion.Messages
import OptnWallet.Library.Overflow

/-
  The components of a player: an input, an output or a blank each, with a commitment to its
  amount, a communication key and a request for a blind signature.

  Main declarations:
    * `Fusion.FusionInput` and `Fusion.FusionOutput`
    * `Fusion.builtComponents`
    * `Fusion.buildRoundCommit`
-/

--- Amounts

namespace OptnWallet.Fusion

open Overflow (Mode keepSigned keepUnsigned)
open Schnorr (Curve BlindSignatureRequest compressed toBytes)
open Word64

/- The txid is displayed. -/
structure FusionInput where
  prevTxid : String
  prevIndex : UInt32
  pubkey : List UInt8
  value : UInt64
deriving DecidableEq

structure FusionOutput where
  scriptpubkey : List UInt8
  value : UInt64
deriving DecidableEq

def orPanic {α : Type} (value : Option α) : Except (Fault String) α :=
  match value with
  | some value => .ok value
  | none => .error .panic

def componentFee (mode : Mode) (size feerate : UInt64) : Except (Fault String) UInt64 := do
  let product ← orPanic (keepUnsigned mode (size.toNat * feerate.toNat))
  .ok (divCeil product 1000)

def sizeOfInput (pubkeyLen : Nat) : UInt64 := 108 + UInt64.ofNat pubkeyLen

def sizeOfOutput (scriptLen : Nat) : UInt64 := 9 + UInt64.ofNat scriptLen

def hexToBytes (s : String) : Except String (List UInt8) :=
  let digits := Cashaddr.utf8 s.toList
  if digits.length % 2 ≠ 0 then .error "odd-length hex"
  else
    match hexPairs digits with
    | some bytes => .ok bytes
    | none => .error "bad hex"

--- Components

/- The salt commitment is filled in later. -/
def inputComponent (input : FusionInput) (txid : List UInt8) : Component :=
  { saltCommitment := []
    component :=
      some (.input
          { prevTxid := txid.reverse
            prevIndex := input.prevIndex
            pubkey := input.pubkey
            amount := input.value }) }

def outputComponent (output : FusionOutput) : Component :=
  { saltCommitment := []
    component := some (.output { scriptpubkey := output.scriptpubkey, amount := output.value }) }

def blankComponent : Component := { saltCommitment := [], component := some .blank }

variable (components : Wire Component)

/- The written component, and the amount it commits to. -/
def builtInput (mode : Mode) (feerate : UInt64) (input : FusionInput) :
    Except (Fault String) (List UInt8 × Int64) := do
  let txid ← (hexToBytes input.prevTxid).mapError Fault.error
  if txid.length ≠ 32 then .error (.error "prev_txid must be 32 bytes")
  else do
    let fee ← componentFee mode (sizeOfInput input.pubkey.length) feerate
    let amount ← orPanic (keepSigned mode (input.value.toInt64.toInt - fee.toInt64.toInt))
    .ok (components.encodeToVec (inputComponent input txid), amount)

def builtOutput (mode : Mode) (feerate : UInt64) (output : FusionOutput) :
    Except (Fault String) (List UInt8 × Int64) := do
  let fee ← componentFee mode (sizeOfOutput output.scriptpubkey.length) feerate
  let negated ← orPanic (keepSigned mode (-output.value.toInt64.toInt))
  let amount ← orPanic (keepSigned mode (negated.toInt - fee.toInt64.toInt))
  .ok (components.encodeToVec (outputComponent output), amount)

def builtComponents (mode : Mode) (inputs : List FusionInput) (outputs : List FusionOutput)
    (numBlanks : Nat) (feerate : UInt64) : Except (Fault String) (List (List UInt8 × Int64)) := do
  let ins ← inputs.mapM (builtInput components mode feerate)
  let outs ← outputs.mapM (builtOutput components mode feerate)
  .ok (ins ++ outs ++ List.replicate numBlanks (components.encodeToVec blankComponent, 0))

--- Commitments

/- What a player draws at random, by the place of the component.  Drawn scalars are not zero. -/
structure Draws (n : Nat) where
  salts : Nat → Vector UInt8 32
  nonces : Nat → ZMod n
  communicationKeys : Nat → ZMod n
  blindings : Nat → ZMod n × ZMod n
  randomNumber : Vector UInt8 32
  nonces_ne_zero : ∀ i, nonces i ≠ 0
  communicationKeys_ne_zero : ∀ i, communicationKeys i ≠ 0
  blindings_ne_zero : ∀ i, (blindings i).1 ≠ 0 ∧ (blindings i).2 ≠ 0

structure Row (n : Nat) where
  commitSer : List UInt8
  compSer : List UInt8
  salt : Vector UInt8 32
  nonceScalar : ZMod n
  communicationPrivateKey : Vector UInt8 32

structure PlayerCommit where
  initialCommitments : List (List UInt8)
  excessFee : UInt64
  pedersenTotalNonce : List UInt8
  randomNumberCommitment : List UInt8
  blindSigRequests : List (List UInt8)
deriving DecidableEq

/- `proofs` has the salt and the nonce of each component. -/
structure RoundCommit (n : Nat) (Point : Type) where
  playerCommit : PlayerCommit
  randomNumber : Vector UInt8 32
  requests : List (BlindSignatureRequest n Point)
  componentsSorted : List (List UInt8)
  proofs : List (Vector UInt8 32 × Vector UInt8 32)
  communicationPrivateKeys : List (Vector UInt8 32)
  excessFee : UInt64

variable {n : Nat} {Point : Type} [AddCommGroup Point] [Module (ZMod n) Point] [DecidableEq Point]
variable (curve : Curve n Point) (setup : Pedersen.Setup curve)
variable (sha256 : List UInt8 → Vector UInt8 32) (commitments : Wire InitialCommitment)
variable (draws : Draws n)

/- The row of a component, and the sum of the amounts. -/
def addRow (mode : Mode) (state : List (Row n) × Int64) (entry : (List UInt8 × Int64) × Nat) :
    Except (Fault String) (List (Row n) × Int64) := do
  let salt := draws.salts entry.2
  let comp ← (components.decode entry.1.1).mapError (fun e => .error ("component re-decode: " ++ e))
  let compSer := components.encodeToVec { comp with saltCommitment := (sha256 salt.toList).toList }
  let nonce := draws.nonces entry.2
  let pUncompressed ←
    Pedersen.encodeUncompressed setup (Pedersen.commitPointSigned setup entry.1.2 nonce)
  let excess ← orPanic (keepSigned mode (state.2.toInt + entry.1.2.toInt))
  let commKey := draws.communicationKeys entry.2
  let commPub ← compressed curve (commKey • curve.generator)
  let init : InitialCommitment :=
    { saltedComponentHash := (sha256 (salt.toList ++ compSer)).toList
      amountCommitment := pUncompressed.toList
      communicationKey := commPub.toList }
  .ok (state.1 ++
      [{ commitSer := commitments.encodeToVec init
         compSer
         salt
         nonceScalar := nonce
         communicationPrivateKey := toBytes commKey }], excess)

/- In this order nothing is seen of the kinds of the components. -/
def sortedRows (rows : List (Row n)) : List (Row n) :=
  rows.mergeSort (fun left right => decide (left.commitSer ≤ right.commitSer))

def blindRequest (roundPubkey : List UInt8) (entry : (Row n × List UInt8) × Nat) :
    Except (Fault String) (BlindSignatureRequest n Point) :=
  BlindSignatureRequest.newWithBlinding curve sha256 roundPubkey entry.1.2
    (sha256 entry.1.1.compSer) (draws.blindings entry.2).1 (draws.blindings entry.2).2

def roundCommit (rows : List (Row n)) (requests : List (BlindSignatureRequest n Point))
    (excessFee : UInt64) : RoundCommit n Point :=
  { playerCommit :=
      { initialCommitments := rows.map (fun row => row.commitSer)
        excessFee
        pedersenTotalNonce := (toBytes (rows.map (fun row => row.nonceScalar)).sum).toList
        randomNumberCommitment := (sha256 draws.randomNumber.toList).toList
        blindSigRequests := requests.map (fun req => req.request.toList) }
    randomNumber := draws.randomNumber
    requests
    componentsSorted := rows.map (fun row => row.compSer)
    proofs := rows.map (fun row => (row.salt, toBytes row.nonceScalar))
    communicationPrivateKeys := rows.map (fun row => row.communicationPrivateKey)
    excessFee }

def buildRoundCommit (mode : Mode) (inputs : List FusionInput) (outputs : List FusionOutput)
    (numComponents : Nat) (feerate : UInt64) (roundPubkey : List UInt8)
    (blindNoncePoints : List (List UInt8)) : Except (Fault String) (RoundCommit n Point) := do
  if numComponents < inputs.length + outputs.length then
    .error (.error "more inputs+outputs than the tier's component count")
  else if blindNoncePoints.length ≠ numComponents then
    .error (.error "blind nonce point count must equal num_components")
  else do
    let numBlanks := numComponents - inputs.length - outputs.length
    let built ← builtComponents components mode inputs outputs numBlanks feerate
    let (rows, excess) ←
      built.zipIdx.foldlM (addRow components curve setup sha256 commitments draws mode) ([], 0)
    if excess.toInt < 0 then .error (.error "excess fee is negative — outputs+fees exceed inputs")
    else do
      let sorted := sortedRows rows
      let requests ←
        (sorted.zip blindNoncePoints).zipIdx.mapM (blindRequest curve sha256 draws roundPubkey)
      .ok (roundCommit sha256 draws sorted requests excess.toUInt64)

end OptnWallet.Fusion
