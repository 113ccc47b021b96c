import OptnWallet.Core.Fusion.Schnorr
import OptnWallet.Nostr.ComponentV4

/-
  Blind credentials of fusions between peers: the hash that a credential covers, requests for
  credentials, the check of a credential, and the slots that each peer may ask for.

  Main declarations:
    * `Nostr.verifyBchSchnorrHex`
    * `Nostr.PendingRequest.create`
    * `Nostr.outputCredentialMessageHash`
-/

--- Bytes at the Boundary

namespace OptnWallet.Nostr

open Schnorr (Curve Signature BlindSignatureRequest fromRepr toBytes)

def array32 (bytes : List UInt8) : Option (Vector UInt8 32) :=
  if hLength : bytes.length = 32 then some ⟨bytes.toArray, hLength⟩
  else none

def signatureOf (bytes : List UInt8) : Option Signature := do
  let rx ← array32 (bytes.take 32)
  let s ← array32 (bytes.drop 32)
  some { rx, s }

variable {n : Nat}

/- A scalar that is canonical and not zero. -/
def scalarFrom (bytes : List UInt8) : Option (ZMod n) := do
  let array ← array32 bytes
  let scalar ← fromRepr array
  if scalar = 0 then none else some scalar

variable {Point : Type} [AddCommGroup Point] [Module (ZMod n) Point] [DecidableEq Point]
variable (hexToBin : String → List UInt8) (curve : Curve n Point)
variable (sha256 : List UInt8 → Vector UInt8 32)

/- Malformed bytes and whatever is thrown are refused. -/
def verifyBchSchnorr (pubkey sig64 msg32 : List UInt8) : Bool :=
  match signatureOf sig64, array32 msg32 with
  | some sig, some msg =>
    match Schnorr.verify curve sha256 pubkey sig msg with
    | .ok valid => valid
    | .error _ => false
  | _, _ => false

def verifyBchSchnorrHex (pubkeyHex sigHex msgHashHex : String) : Bool :=
  verifyBchSchnorr curve sha256 (hexToBin pubkeyHex) (hexToBin sigHex) (hexToBin msgHashHex)

--- Requests

/- The blinding factors are drawn, and are not zero. -/
structure PendingRequest (n : Nat) where
  pubkey : List UInt8
  rPoint : List UInt8
  messageHash : Vector UInt8 32
  a : ZMod n
  b : ZMod n
  request : Vector UInt8 32

def PendingRequest.create (roundPubkeyHex rPointHex : String) (messageHash : Vector UInt8 32)
    (a b : ZMod n) : Except (Fault String) (PendingRequest n) := do
  let pubkey := hexToBin roundPubkeyHex
  let rPoint := hexToBin rPointHex
  let request ← BlindSignatureRequest.newWithBlinding curve sha256 pubkey rPoint messageHash a b
  .ok { pubkey, rPoint, messageHash, a, b, request := request.request }

def PendingRequest.requestHex (self : PendingRequest n) : String := hexString self.request.toList

def PendingRequest.openingHex (self : PendingRequest n) : String :=
  hexString ((toBytes self.a).toList ++ (toBytes self.b).toList)

--- Messages

def inputCredentialMessageHash (input : FusionInputRef) (saltCommitmentHex : String) :
    Except String (Vector UInt8 32) :=
  inputComponentBlindMessage hexToBin sha256
    { prevTxidDisplayHex := input.prevTxid
      prevIndex := input.prevIndex
      pubkeyHex := input.pubkey
      amount := input.value
      saltCommitmentHex }

structure FusionCredentialContext where
  session : String
  network : String
  tier : Int
deriving DecidableEq

/- The context and the serial are not covered. -/
def outputCredentialMessageHash (_context : FusionCredentialContext) (output : FusionOutputRef)
    (_serial : String) (saltCommitmentHex : String) : Except String (Vector UInt8 32) :=
  outputComponentBlindMessage hexToBin sha256
    { scriptHex := output.script, amount := output.value, saltCommitmentHex }

--- Slots

def credentialSlotsPerPeer : Nat := 24

def maxOutputCredentialsPerPeer : Nat := 6

def peerCredentialSlotBase (participants : List String) (peerPubkey : String) : Except String Nat :=
  let sorted := participants.insertionSort (· ≤ ·)
  if peerPubkey ∈ sorted then .ok (sorted.idxOf peerPubkey * credentialSlotsPerPeer)
  else .error "peer not in participant set"

end OptnWallet.Nostr
