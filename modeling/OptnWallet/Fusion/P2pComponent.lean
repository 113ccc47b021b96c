import OptnWallet.Core.HexText
import OptnWallet.Fusion.Components

/-
  Components of fusions between peers, as the program behind the interface encodes them from the
  text of a request.

  Main declarations:
    * `Fusion.P2pComponent.Request`
    * `Fusion.P2pComponent.encodeComponentForP2p`
-/

--- Encoders

namespace OptnWallet.Fusion

namespace P2pComponent

def maxPubkey : Nat := 65

def maxScript : Nat := 10000

def saltCommitmentLen : Nat := 32

def txidLen : Nat := 32

/- Blanks around a field are trimmed. -/
def hexDecode (s field : String) : Except String (List UInt8) :=
  let digits := Cashaddr.utf8 (Text.trim s).toList
  if digits.length % 2 ≠ 0 then .error (field ++ ": odd-length hex")
  else
    match hexPairs digits with
    | some bytes => .ok bytes
    | none => .error (field ++ ": bad hex")

def requireLen (bytes : List UInt8) (expected : Nat) (field : String) : Except String Unit :=
  if bytes.length ≠ expected then
    .error (field ++ ": expected " ++ toString expected ++ " bytes, got " ++ toString bytes.length)
  else .ok ()

variable (components : Wire Component) (sha256 : List UInt8 → Vector UInt8 32)

def componentBlindMessage (componentSer : List UInt8) : Vector UInt8 32 := sha256 componentSer

/- The txid is in the order of the transaction. -/
def encodeInputComponent (prevTxidWire : List UInt8) (prevIndex : UInt32) (pubkey : List UInt8)
    (amount : UInt64) (saltCommitment : List UInt8) : Except String (List UInt8) := do
  requireLen prevTxidWire txidLen "prev_txid"
  requireLen saltCommitment saltCommitmentLen "salt_commitment"
  if pubkey = [] ∨ maxPubkey < pubkey.length then .error "pubkey length out of range"
  else
    .ok
      (components.encodeToVec
        { saltCommitment
          component := some (.input { prevTxid := prevTxidWire, prevIndex, pubkey, amount }) })

def encodeOutputComponent (scriptpubkey : List UInt8) (amount : UInt64)
    (saltCommitment : List UInt8) : Except String (List UInt8) := do
  requireLen saltCommitment saltCommitmentLen "salt_commitment"
  if scriptpubkey = [] ∨ maxScript < scriptpubkey.length then
    .error "scriptpubkey length out of range"
  else
    .ok
      (components.encodeToVec
        { saltCommitment, component := some (.output { scriptpubkey, amount }) })

def encodeBlankComponent (saltCommitment : List UInt8) : Except String (List UInt8) := do
  requireLen saltCommitment saltCommitmentLen "salt_commitment"
  .ok (components.encodeToVec { saltCommitment, component := some .blank })

--- Requests

structure Request where
  kind : String
  saltCommitment : String
  prevTxid : Option String
  prevIndex : Option UInt32
  pubkey : Option String
  script : Option String
  amount : Option UInt64
deriving DecidableEq

structure Response where
  protocol : String
  componentHex : String
  blindMessageHex : String
deriving DecidableEq

def required {α : Type} (field : Option α) (missing : String) : Except String α :=
  match field with
  | some value => .ok value
  | none => .error missing

section

variable (request : Request) (salt : List UInt8)

/- The txid is displayed, and is reversed for the wire. -/
def requestInput : Except String (List UInt8) := do
  let txidDisplay ← required request.prevTxid "input requires prevTxid"
  let txid ← hexDecode txidDisplay "prevTxid"
  requireLen txid txidLen "prevTxid"
  let prevIndex ← required request.prevIndex "input requires prevIndex"
  let pubkeyText ← required request.pubkey "input requires pubkey"
  let pubkey ← hexDecode pubkeyText "pubkey"
  let amount ← required request.amount "input requires amount"
  encodeInputComponent components txid.reverse prevIndex pubkey amount salt

def requestOutput : Except String (List UInt8) := do
  let scriptText ← required request.script "output requires script"
  let script ← hexDecode scriptText "script"
  let amount ← required request.amount "output requires amount"
  encodeOutputComponent components script amount salt

/- The component of the kind that is asked for. -/
def requestComponent : Except String (List UInt8) :=
  if request.kind = "input" then requestInput components request salt
  else if request.kind = "output" then requestOutput components request salt
  else if request.kind = "blank" then encodeBlankComponent components salt
  else .error ("unknown component kind: " ++ request.kind)

end

def encodeComponentForP2p (request : Request) : Except String Response := do
  let salt ← hexDecode request.saltCommitment "saltCommitment"
  let componentSer ← requestComponent components request salt
  .ok
    { protocol := "p2p-v4-ec-component"
      componentHex := hexString componentSer
      blindMessageHex := hexString (componentBlindMessage sha256 componentSer).toList }

--- Decoded Fields

variable {s field : String} {bytes : List UInt8}

theorem hexDecode_eq_ok_iff : hexDecode s field = .ok bytes ↔ HexText (Text.trim s) bytes := by
  unfold hexDecode
  dsimp only
  constructor
  · intro hDecode
    split at hDecode
    · cases hDecode
    · rename_i hEven
      split at hDecode
      · rename_i found hPairs
        cases hDecode
        exact ⟨not_not.mp hEven, hPairs⟩
      · cases hDecode
  · intro hText
    rw [if_neg (not_not.mpr hText.even), hText.pairs]

theorem hexToBytes_eq_ok_iff : hexToBytes s = .ok bytes ↔ HexText s bytes := by
  unfold hexToBytes
  dsimp only
  constructor
  · intro hDecode
    split at hDecode
    · cases hDecode
    · rename_i hEven
      split at hDecode
      · rename_i found hPairs
        cases hDecode
        exact ⟨not_not.mp hEven, hPairs⟩
      · cases hDecode
  · intro hText
    rw [if_neg (not_not.mpr hText.even), hText.pairs]

theorem hexDecode_of_hexText (hText : HexText s bytes) : hexDecode s field = .ok bytes := by
  rw [hexDecode_eq_ok_iff, hText.trim]
  exact hText

theorem requireLen_of_length {expected : Nat} (hLength : bytes.length = expected) :
    requireLen bytes expected field = .ok () := by
  unfold requireLen
  exact if_neg (not_not.mpr hLength)

end P2pComponent

end OptnWallet.Fusion
