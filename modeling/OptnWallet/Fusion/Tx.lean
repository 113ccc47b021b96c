import OptnWallet.Core.Rpa
import OptnWallet.Fusion.Messages

/-
  The transaction that every player rebuilds from the shared components, and what a signature of
  one of its inputs signs.

  Main declarations:
    * `Fusion.FusionTx.fromComponents` and `Fusion.FusionTx.fromP2p`
    * `Fusion.FusionTx.sighash`
    * `Fusion.FusionTx.serialize`
    * `Fusion.FusionTx.unsignedTemplateHash`
-/

--- Transactions

namespace OptnWallet.Fusion

/- It tags the marker of a session. -/
def fuseId : List UInt8 := [0x46, 0x55, 0x5a, 0x00]

def sighashType : UInt32 := 0x41

def sequenceFinal : UInt32 := 0xffffffff

structure TxInput where
  prevTxidWire : Vector UInt8 32
  prevIndex : UInt32
  pubkey : List UInt8
  value : UInt64
deriving DecidableEq

structure TxOutput where
  value : UInt64
  script : List UInt8
deriving DecidableEq

structure P2pInput where
  prevTxid : Vector UInt8 32
  prevIndex : UInt32
  pubkey : List UInt8
  value : UInt64
deriving DecidableEq

structure P2pOutput where
  script : List UInt8
  value : UInt64
deriving DecidableEq

/- `inputComponentIdx` has the component of each input. -/
structure FusionTx where
  version : UInt32
  inputs : List TxInput
  outputs : List TxOutput
  inputComponentIdx : List Nat
deriving DecidableEq

namespace FusionTx

/- The marker of a session, without value. -/
def marker (sessionHash : Vector UInt8 32) : TxOutput :=
  { value := 0, script := [0x6a, 0x04] ++ fuseId ++ [0x20] ++ sessionHash.toList }

/- A component that was decoded, added to the transaction. -/
def addPart (tx : FusionTx) (i : Nat) (part : Option ComponentPart) : Except String FusionTx :=
  match part with
  | some (.input inp) =>
    if hLength : inp.prevTxid.length = 32 then .ok
        { tx with
          inputs :=
            tx.inputs ++
              [{ prevTxidWire := ⟨inp.prevTxid.toArray, hLength⟩
                 prevIndex := inp.prevIndex
                 pubkey := inp.pubkey
                 value := inp.amount }]
          inputComponentIdx := tx.inputComponentIdx ++ [i] }
    else .error ("component " ++ toString i ++ ": bad prevout length")
  | some (.output out) =>
    .ok { tx with outputs := tx.outputs ++ [{ value := out.amount, script := out.scriptpubkey }] }
  | some .blank => .ok tx
  | none => .error ("component " ++ toString i ++ ": empty")

def addComponent (components : Wire Component) (tx : FusionTx) (entry : List UInt8 × Nat) :
    Except String FusionTx := do
  let comp ← (components.decode entry.1).mapError
      (fun e => "component " ++ toString entry.2 ++ " decode: " ++ e)
  addPart tx entry.2 comp.component

def fromComponents (components : Wire Component) (allComponents : List (List UInt8))
    (sessionHash : Vector UInt8 32) : Except String FusionTx :=
  allComponents.zipIdx.foldlM (addComponent components)
    { version := 1, inputs := [], outputs := [marker sessionHash], inputComponentIdx := [] }

/- Txids are displayed in the reverse of the order on the wire. -/
def fromP2p (inputs : List P2pInput) (outputs : List P2pOutput) : Except String FusionTx :=
  if inputs = [] ∨ outputs = [] then .error "P2P Fusion requires at least one input and output"
  else .ok
      { version := 2
        inputs :=
          inputs.map
            (fun input =>
              { prevTxidWire := input.prevTxid.reverse
                prevIndex := input.prevIndex
                pubkey := input.pubkey
                value := input.value })
        outputs :=
          outputs.map
            (fun output => { value := output.value, script := output.script })
        inputComponentIdx := [] }

--- Signature Hashes

variable (sha256 : List UInt8 → Vector UInt8 32) (ripemd160 : List UInt8 → Vector UInt8 20)

def dsha256 (bytes : List UInt8) : Vector UInt8 32 := sha256 (sha256 bytes).toList

def p2pkhScript (hash160 : Vector UInt8 20) : List UInt8 :=
  [0x76, 0xa9, 0x14] ++ hash160.toList ++ [0x88, 0xac]

def outpointBytes (input : TxInput) : List UInt8 :=
  input.prevTxidWire.toList ++ bytesLE input.prevIndex.toNat 4

def outputBytes (output : TxOutput) : List UInt8 :=
  bytesLE output.value.toNat 8 ++ varint (UInt64.ofNat output.script.length) ++ output.script

section

variable (tx : FusionTx)

def hashPrevouts : Vector UInt8 32 :=
  dsha256 sha256 (tx.inputs.flatMap outpointBytes)

/- Every sequence is the final one. -/
def hashSequence : Vector UInt8 32 :=
  dsha256 sha256 (tx.inputs.flatMap (fun _ => bytesLE sequenceFinal.toNat 4))

def hashOutputs : Vector UInt8 32 := dsha256 sha256 (tx.outputs.flatMap outputBytes)

/- What is hashed for a signature of this input. -/
def preimage (input : TxInput) : List UInt8 :=
  let scriptCode := p2pkhScript (ripemd160 (sha256 input.pubkey).toList)
  bytesLE tx.version.toNat 4 ++ (hashPrevouts sha256 tx).toList ++
    (hashSequence sha256 tx).toList ++ outpointBytes input ++
    varint (UInt64.ofNat scriptCode.length) ++ scriptCode ++ bytesLE input.value.toNat 8 ++
    bytesLE sequenceFinal.toNat 4 ++ (hashOutputs sha256 tx).toList ++ bytesLE 0 4 ++
    bytesLE sighashType.toNat 4

def sighash (i : Nat) : Except String (Vector UInt8 32) :=
  match tx.inputs[i]? with
  | some input => .ok (dsha256 sha256 (preimage sha256 ripemd160 tx input))
  | none => .error "input index out of range"

def numInputs : Nat := tx.inputs.length

def inputPubkey (i : Nat) : Option (List UInt8) :=
  tx.inputs[i]?.map (fun input => input.pubkey)

def inputComponentIndex (i : Nat) : Option Nat := tx.inputComponentIdx[i]?

end

--- Serialization

/- The length of the public key is cut to one byte. -/
def scriptSig (input : TxInput) (sig : List UInt8) : List UInt8 :=
  [65] ++ sig ++ [0x41] ++ [UInt8.ofNat input.pubkey.length] ++ input.pubkey

def signedInput (entry : TxInput × List UInt8) : Except String (List UInt8) :=
  if entry.2.length ≠ 64 then .error "each input signature must be 64 bytes"
  else
    let script := scriptSig entry.1 entry.2
    .ok (outpointBytes entry.1 ++ varint (UInt64.ofNat script.length) ++ script ++
        bytesLE sequenceFinal.toNat 4)

def serialize (tx : FusionTx) (inputSigs : List (List UInt8)) : Except String (List UInt8) :=
  if inputSigs.length ≠ tx.inputs.length then .error "signature count != input count"
  else do
    let inputs ← (tx.inputs.zip inputSigs).mapM signedInput
    .ok (bytesLE tx.version.toNat 4 ++ varint (UInt64.ofNat tx.inputs.length) ++ inputs.flatten ++
        varint (UInt64.ofNat tx.outputs.length) ++ tx.outputs.flatMap outputBytes ++ bytesLE 0 4)

/- The displayed id of the signed transaction. -/
def txid (tx : FusionTx) (inputSigs : List (List UInt8)) : Except String String := do
  let raw ← serialize tx inputSigs
  .ok (hexString (dsha256 sha256 raw).toList.reverse)

/- The inputs of the template have no script. -/
def unsignedTemplate (tx : FusionTx) : List UInt8 :=
  bytesLE tx.version.toNat 4 ++ varint (UInt64.ofNat tx.inputs.length) ++
    tx.inputs.flatMap (fun input => outpointBytes input ++ [0] ++ bytesLE sequenceFinal.toNat 4) ++
    varint (UInt64.ofNat tx.outputs.length) ++ tx.outputs.flatMap outputBytes ++ bytesLE 0 4

def unsignedTemplateHash (tx : FusionTx) : Vector UInt8 32 := dsha256 sha256 (unsignedTemplate tx)

end FusionTx

end OptnWallet.Fusion
