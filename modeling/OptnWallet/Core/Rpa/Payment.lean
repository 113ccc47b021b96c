import OptnWallet.Core.Coins.Txid
import OptnWallet.Library.KeyGroup

/-
  Payments to cash codes.  The sender of a payment and its receiver compute one secret from a key
  of their own, a public key of the other and the outpoint that is spent, and the secret tweaks
  the receiver's spend key.

  Main declarations:
    * `Rpa.sharedSecret`
    * `Rpa.paymentAddress` and `Rpa.spendingKey`
    * `Rpa.signingKeyForReceipt`
-/

--- Primitives

namespace OptnWallet

/-
  The curve and the digests.  The message is the one that the curve's errors are displayed with.
-/
structure RpaPrimitives where
  curve : KeyGroup
  sha256 : List UInt8 → Vector UInt8 32
  ripemd160 : List UInt8 → Vector UInt8 20
  hmacSha512 : List UInt8 → List UInt8 → Vector UInt8 64
  curveError : String

def RpaPrimitives.hash160 (primitives : RpaPrimitives) (bytes : List UInt8) : Vector UInt8 20 :=
  primitives.ripemd160 (primitives.sha256 bytes).toList

/- The same failure with another error. -/
def Fault.map {ε ε' : Type} (f : ε → ε') : Fault ε → Fault ε'
  | .error e => .error (f e)
  | .panic => .panic

/- A number, the highest byte first. -/
def natOfBytesBE (bytes : List UInt8) : Nat := natOfBytesLE bytes.reverse

def bytesBE (value count : Nat) : List UInt8 := (bytesLE value count).reverse

theorem natOfBytesBE_bytesBE {value count : Nat} (hLt : value < 256 ^ count) :
    natOfBytesBE (bytesBE value count) = value := by
  unfold natOfBytesBE bytesBE
  rw [List.reverse_reverse, natOfBytesLE_bytesLE hLt]

--- Codes

/- A decoded code; `codePrefix` is what its text carried. -/
structure Cashcode where
  version : UInt8
  prefixBits : UInt8
  scanPubkey : Vector UInt8 33
  spendPubkey : Vector UInt8 33
  expiry : UInt32
  codePrefix : String
deriving DecidableEq

def Cashcode.network (code : Cashcode) : Network :=
  if code.version = 0x01 ∨ code.version = 0x02 then .mainnet
  else .chipnet

namespace Rpa

variable (primitives : RpaPrimitives)

--- Shared Secrets

/- The sum of two numbers in as few bytes as it takes. -/
def addBeMinimal (a b : Vector UInt8 32) : List UInt8 :=
  let sum := bytesBE (natOfBytesBE a.toList + natOfBytesBE b.toList) 33
  match sum.dropWhile (fun byte => byte = 0) with
  | [] => [0]
  | digits => digits

def scalarBytes (scalar : Nat) : Vector UInt8 32 :=
  ⟨(bytesBE scalar 32).toArray, by
    simp [bytesBE, length_bytesLE]⟩

def scalarFromBytes (bytes : Vector UInt8 32) : Except CliError Nat :=
  let scalar := natOfBytesBE bytes.toList
  if scalar < primitives.curve.order then .ok scalar
  else .error (.usage "private key is out of range")

/- A scalar with a public key, from its bytes. -/
def secretKeyFromSlice (bytes : Vector UInt8 32) : Option primitives.curve.SecretKey :=
  KeyGroup.SecretKey.ofScalar primitives.curve (natOfBytesBE bytes.toList)

/- `txid` is the text that is displayed, hashed as it is. -/
def sharedSecret (privkey : Vector UInt8 32) (counterpartPubkey : Vector UInt8 33) (txid : String)
    (vout : UInt32) : Except CliError (Vector UInt8 32) :=
  match primitives.curve.decode counterpartPubkey with
  | none => .error (.usage "counterpart pubkey is not a curve point")
  | some point => do
      let scalar ← scalarFromBytes primitives privkey
      let product := primitives.curve.mul scalar point
      match primitives.curve.xCoordinate product with
      | none => .error (.internal "ECDH product has no x coordinate")
      | some x =>
        let shaEcdh := primitives.sha256 (0 :: x.toList)
        let hashOut := primitives.sha256 (Cashaddr.utf8 (txid ++ toString vout.toNat).toList)
        .ok (primitives.sha256 (addBeMinimal shaEcdh hashOut))

--- One-Time Keys

/- The left half of a keyed digest. -/
def ckdTweak (secret : Vector UInt8 32) (pubkey : List UInt8) (index : UInt32) : Vector UInt8 32 :=
  (primitives.hmacSha512 secret.toList (pubkey ++ bytesBE index.toNat 4)).take 32

/- The public spend key, moved by the tweak. -/
def paymentPoint (spendPubkey : Vector UInt8 33) (secret : Vector UInt8 32) (index : UInt32) :
    Except CliError primitives.curve.Point :=
  match primitives.curve.decode spendPubkey with
  | none => .error (.usage "spend pubkey is not a curve point")
  | some parent => do
      let tweak ← scalarFromBytes primitives (ckdTweak primitives secret spendPubkey.toList index)
      .ok (primitives.curve.add parent (primitives.curve.mul tweak primitives.curve.generator))

/- The address of a public point. -/
def pointAddress (network : Network) (point : primitives.curve.Point) : Address :=
  { kind := .p2pkh
    hash := primitives.hash160 (primitives.curve.encode point)
    addressPrefix := network.addressPrefix }

def paymentAddress (spendPubkey : Vector UInt8 33) (secret : Vector UInt8 32) (network : Network)
    (index : UInt32) : Except CliError Address := do
  let child ← paymentPoint primitives spendPubkey secret index
  .ok (pointAddress primitives network child)

section

variable (spendPrivkey : Vector UInt8 32) (secret : Vector UInt8 32) (index : UInt32)

/- The private spend key, moved by the tweak. -/
def spendingKey :
    Except CliError (Vector UInt8 32) := do
  let parent ← scalarFromBytes primitives spendPrivkey
  match secretKeyFromSlice primitives spendPrivkey with
  | none => .error (.usage ("invalid spend private key: " ++ primitives.curveError))
  | some key => do
      let parentPub := primitives.curve.encode key.publicPoint
      let tweak ← scalarFromBytes primitives (ckdTweak primitives secret parentPub index)
      let child := (parent + tweak) % primitives.curve.order
      if child = 0 then .error (.internal "derived spending key is zero — astronomically unlikely")
      else .ok (scalarBytes child)

/- The address that the one-time key controls. -/
def spendingKeyAddress
    (network : Network) : Except CliError Address := do
  let bytes ← spendingKey primitives spendPrivkey secret index
  match secretKeyFromSlice primitives bytes with
  | none => .error (.internal ("derived key rejected: " ++ primitives.curveError))
  | some key => .ok (pointAddress primitives network key.publicPoint)

end

--- Receipts

/-
  The key of a received payment, from the outpoint and the public key that the sender used.  The
  key must control the address.
-/
def signingKeyForReceipt (tables : UnicodeTables) (scanPrivate spendPrivate : Vector UInt8 32)
    (prevoutTxid : String) (prevoutIndex : UInt32) (senderPublic : Vector UInt8 33)
    (expectedAddress : String) (network : Network) :
    Except (Fault CliError) primitives.curve.SecretKey := do
  let _ ← (Outpoint.parse prevoutTxid prevoutIndex).mapError
      (fun _ => Fault.error (.protocol "invalid Cash Code origin outpoint"))
  let expected ← (Address.decode tables expectedAddress).mapError (Fault.map CliError.protocol)
  if expected.addressPrefix ≠ network.addressPrefix then
    .error (.error (.protocol "Cash Code receipt belongs to another network"))
  else do
    let secret ←
      (sharedSecret primitives scanPrivate senderPublic prevoutTxid prevoutIndex).mapError
        Fault.error
    let bytes ← (spendingKey primitives spendPrivate secret 0).mapError Fault.error
    match secretKeyFromSlice primitives bytes with
    | none => .error (.error (.protocol "invalid Cash Code derived signing key"))
    | some key =>
      let actual := pointAddress primitives network key.publicPoint
      if actual.scriptPubkey ≠ expected.scriptPubkey then
        .error (.error (.protocol "Cash Code origin does not control this output"))
      else .ok key

end Rpa

end OptnWallet
