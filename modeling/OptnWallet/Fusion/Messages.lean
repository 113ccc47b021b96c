import OptnWallet.Core.Varint
import OptnWallet.Library.Protobuf

/-
  The messages of a fusion round that the wallet reads and writes.  Their types are generated from
  a schema, and their encoding comes from a dependency: the one that the schema gives to
  components and their commitments reads the fields in the order in which they are written.

  Main declarations:
    * `Fusion.Component`
    * `Fusion.Wire`
    * `Fusion.Schema.components`
    * `Fusion.Schema.commitments`
-/

namespace OptnWallet.Fusion

/- The outpoint is in the order of the transaction. -/
structure InputComponent where
  prevTxid : List UInt8
  prevIndex : UInt32
  pubkey : List UInt8
  amount : UInt64
deriving DecidableEq

structure OutputComponent where
  scriptpubkey : List UInt8
  amount : UInt64
deriving DecidableEq

inductive ComponentPart where
  | input (component : InputComponent)
  | output (component : OutputComponent)
  | blank
deriving DecidableEq

/- The part is absent where a message has none of the three. -/
structure Component where
  saltCommitment : List UInt8
  component : Option ComponentPart
deriving DecidableEq

structure InitialCommitment where
  saltedComponentHash : List UInt8
  amountCommitment : List UInt8
  communicationKey : List UInt8
deriving DecidableEq

structure Proof where
  componentIdx : UInt32
  salt : List UInt8
  pedersenNonce : List UInt8
deriving DecidableEq

/- How messages of one type are written and read. -/
structure Wire (Message : Type) where
  encodeToVec : Message → List UInt8
  decode : List UInt8 → Except String Message

/- A written message is read back. -/
def Wire.RoundTrips {Message : Type} (wire : Wire Message) : Prop :=
  ∀ message, wire.decode (wire.encodeToVec message) = .ok message

--- Encoded Components

namespace Schema

open Protobuf

def encodeInput (input : InputComponent) : List UInt8 :=
  bytesField 0x0a input.prevTxid ++ uintField 0x10 input.prevIndex.toNat ++
    bytesField 0x1a input.pubkey ++ uintField 0x20 input.amount.toNat

def decodeInput (bytes : List UInt8) : Option InputComponent := do
  let (prevTxid, bytes) ← takeBytesField 0x0a bytes
  let (prevIndex, bytes) ← takeUintField 0x10 bytes
  let (pubkey, bytes) ← takeBytesField 0x1a bytes
  let (amount, _) ← takeUintField 0x20 bytes
  some { prevTxid, prevIndex := UInt32.ofNat prevIndex, pubkey, amount := UInt64.ofNat amount }

def encodeOutput (output : OutputComponent) : List UInt8 :=
  bytesField 0x0a output.scriptpubkey ++ uintField 0x10 output.amount.toNat

def decodeOutput (bytes : List UInt8) : Option OutputComponent := do
  let (scriptpubkey, bytes) ← takeBytesField 0x0a bytes
  let (amount, _) ← takeUintField 0x10 bytes
  some { scriptpubkey, amount := UInt64.ofNat amount }

def encodePart : Option ComponentPart → List UInt8
  | some (.input input) => bytesField 0x12 (encodeInput input)
  | some (.output output) => bytesField 0x1a (encodeOutput output)
  | some .blank => bytesField 0x22 []
  | none => []

/- The part of the first of the three tags. -/
def decodePart (bytes : List UInt8) : Option (Option ComponentPart) :=
  if bytes = [] then some none
  else
    match takeBytesField 0x12 bytes with
    | some (inner, _) => (decodeInput inner).map (fun input => some (.input input))
    | none =>
      match takeBytesField 0x1a bytes with
      | some (inner, _) => (decodeOutput inner).map (fun output => some (.output output))
      | none => (takeBytesField 0x22 bytes).map (fun _ => some .blank)

def encodeComponent (component : Component) : List UInt8 :=
  bytesField 0x0a component.saltCommitment ++ encodePart component.component

def decodeComponent (bytes : List UInt8) : Option Component := do
  let (saltCommitment, bytes) ← takeBytesField 0x0a bytes
  let part ← decodePart bytes
  some { saltCommitment, component := part }

def decoded {α : Type} (message : Option α) : Except String α :=
  match message with
  | some message => .ok message
  | none => .error "failed to decode Protobuf message"

def components : Wire Component :=
  { encodeToVec := encodeComponent
    decode := fun bytes => decoded (decodeComponent bytes) }

theorem decodeInput_encodeInput (input : InputComponent) :
    decodeInput (encodeInput input) = some input := by
  have hAmount :
      takeUintField 0x20 (uintField 0x20 input.amount.toNat) = some (input.amount.toNat, []) := by
    rw [← List.append_nil (uintField _ _)]
    exact takeUintField_append _ _ _
  unfold decodeInput encodeInput
  simp [List.append_assoc, hAmount]

theorem decodeOutput_encodeOutput (output : OutputComponent) :
    decodeOutput (encodeOutput output) = some output := by
  have hAmount :
      takeUintField 0x10 (uintField 0x10 output.amount.toNat) = some (output.amount.toNat, []) := by
    rw [← List.append_nil (uintField _ _)]
    exact takeUintField_append _ _ _
  unfold decodeOutput encodeOutput
  simp [hAmount]

theorem takeBytesField_self (tag : UInt8) (bytes : List UInt8) :
    takeBytesField tag (bytesField tag bytes) = some (bytes, []) := by
  have hTake := takeBytesField_append tag bytes []
  rw [List.append_nil] at hTake
  exact hTake

theorem takeBytesField_other {tag other : UInt8} (hTag : other ≠ tag) (bytes : List UInt8) :
    takeBytesField tag (bytesField other bytes) = none := takeBytesField_of_ne hTag _

/- By the kind of the part. -/
theorem decodePart_encodePart (part : Option ComponentPart) :
    decodePart (encodePart part) = some part := by
  cases part with
  | none => rfl
  | some part =>
    unfold decodePart encodePart
    cases part with
    | input input =>
      dsimp only
      rw [if_neg (bytesField_ne_nil _ _), takeBytesField_self]
      dsimp only
      rw [decodeInput_encodeInput, Option.map_some]
    | output output =>
      dsimp only
      rw [if_neg (bytesField_ne_nil _ _), takeBytesField_other (by decide), takeBytesField_self]
      dsimp only
      rw [decodeOutput_encodeOutput, Option.map_some]
    | blank => rfl

theorem components_roundTrips : components.RoundTrips := by
  intro component
  have hDecode : decodeComponent (encodeComponent component) = some component := by
    unfold decodeComponent encodeComponent
    simp [decodePart_encodePart]
  change decoded (decodeComponent (encodeComponent component)) = _
  rw [hDecode]
  rfl

/- An input of 200000 in the encoding of other players. -/
example :
    components.encodeToVec
        { saltCommitment := List.replicate 32 0x11
          component :=
            some (.input
                { prevTxid := List.replicate 32 0xaa
                  prevIndex := 3
                  pubkey := List.replicate 33 0x02
                  amount := 200000 }) } =
      [0x0a, 0x20] ++ List.replicate 32 0x11 ++ [0x12, 0x4b, 0x0a, 0x20] ++
        List.replicate 32 0xaa ++ [0x10, 0x03, 0x1a, 0x21] ++ List.replicate 33 0x02 ++
        [0x20, 0xc0, 0x9a, 0x0c] := by
  decide

--- Commitments

def encodeCommitment (commitment : InitialCommitment) : List UInt8 :=
  bytesField 0x0a commitment.saltedComponentHash ++ bytesField 0x12 commitment.amountCommitment ++
    bytesField 0x1a commitment.communicationKey

def decodeCommitment (bytes : List UInt8) : Option InitialCommitment := do
  let (saltedComponentHash, bytes) ← takeBytesField 0x0a bytes
  let (amountCommitment, bytes) ← takeBytesField 0x12 bytes
  let (communicationKey, _) ← takeBytesField 0x1a bytes
  some { saltedComponentHash, amountCommitment, communicationKey }

def commitments : Wire InitialCommitment :=
  { encodeToVec := encodeCommitment
    decode := fun bytes => decoded (decodeCommitment bytes) }

theorem commitments_roundTrips : commitments.RoundTrips := by
  intro commitment
  have hDecode : decodeCommitment (encodeCommitment commitment) = some commitment := by
    unfold decodeCommitment encodeCommitment
    simp [List.append_assoc, takeBytesField_self]
  change decoded (decodeCommitment (encodeCommitment commitment)) = _
  rw [hDecode]
  rfl

end Schema

end OptnWallet.Fusion
