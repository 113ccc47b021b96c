import OptnWallet.Core.Tx.Layout
import OptnWallet.Core.WalletProjection

/-
  What a dApp connector signs: the signing serialization of an approved transaction and its source
  outputs.

  Main declarations:
    * `Connect.SigningContext`
    * `Connect.tokenPrefix`
    * `Connect.encodeOutputs`
    * `Connect.signingSerialization`
-/

--- Signing Contexts

namespace OptnWallet.Connect

def allOutputs : UInt8 := 0x41

def allOutputsAllUtxos : UInt8 := 0x61

def maxMoney : Nat := 21000000 * 100000000

def maxItems : Nat := 10000

def maxRequestBytes : Nat := 8 * 1024 * 1024

/- The transaction id is in display order. -/
structure Input where
  outpointTransactionHash : List UInt8
  outpointIndex : UInt32
  sequenceNumber : UInt32
deriving DecidableEq

structure Token where
  category : List UInt8
  amount : UInt64
  nft : Option Nft
deriving DecidableEq

structure Output where
  valueSatoshis : UInt64
  lockingBytecode : List UInt8
  token : Option Token
deriving DecidableEq

structure Transaction where
  version : UInt32
  locktime : UInt32
  inputs : List Input
  outputs : List Output
deriving DecidableEq

structure SigningContext where
  inputIndex : Nat
  transaction : Transaction
  sourceOutputs : List Output
deriving DecidableEq

--- Token Prefixes

def compact (value : UInt64) : List UInt8 :=
  if value.toNat ≤ 252 then [value.toUInt8]
  else if value.toNat ≤ 65535 then 253 :: bytesLE value.toNat 2
  else if value.toNat ≤ 4294967295 then 254 :: bytesLE value.toNat 4
  else 255 :: bytesLE value.toNat 8

def hash256 (sha256 : List UInt8 → Vector UInt8 32) (bytes : List UInt8) : List UInt8 :=
  (doubleSha256 sha256 bytes).toList

namespace Token

def commitment (token : Token) : List UInt8 :=
  match token.nft with
  | some nft => nft.commitment
  | none => []

def flags (token : Token) : UInt8 :=
  (if 0 < token.amount then 0x10 else 0) |||
    match token.nft with
    | some nft => 0x20 ||| nft.capability.bits ||| (if nft.commitment.isEmpty then 0 else 0x40)
    | none => 0

end Token

def tokenPrefix : Option Token → Except String (List UInt8)
  | none => .ok []
  | some token =>
    if token.category.length ≠ 32 then .error "token category must contain 32 bytes"
    else if 0x7fffffffffffffff < token.amount then .error "token amount is out of range"
    else if token.amount = 0 ∧ token.nft.isNone then .error "token prefix must encode tokens"
    else if 40 < token.commitment.length then .error "NFT commitment exceeds 40 bytes"
    else .ok (0xef ::
          (token.category.reverse ++ token.flags ::
              ((if token.commitment.isEmpty then []
                else compact (UInt64.ofNat token.commitment.length) ++ token.commitment) ++
                (if 0 < token.amount then compact token.amount
                  else []))))

--- Outputs

/- The bytes so far, with this output behind them. -/
def encodeOutput (out : List UInt8) (output : Output) : Except String (List UInt8) :=
  if maxRequestBytes < output.lockingBytecode.length then
    .error "output script exceeds the wallet resource limit"
  else if maxMoney < output.valueSatoshis.toNat then .error "satoshi amount is out of range"
  else do
    let tokenBytes ← tokenPrefix output.token
    let out :=
      out ++ (bytesLE output.valueSatoshis.toNat 8 ++
          (compact (UInt64.ofNat (tokenBytes.length + output.lockingBytecode.length)) ++
            (tokenBytes ++ output.lockingBytecode)))
    if maxRequestBytes < out.length then .error "outputs exceed the wallet resource limit"
    else .ok out

/- A sum that leaves the word is out of range as well. -/
def encodeOutputsFrom : List UInt8 → Nat → List Output → Except String (List UInt8 × Nat)
  | encoded, total, [] => .ok (encoded, total)
  | encoded, total, output :: rest => do
      let encoded ← encodeOutput encoded output
      if maxMoney < total + output.valueSatoshis.toNat then
        .error "total output value exceeds the monetary range"
      else encodeOutputsFrom encoded (total + output.valueSatoshis.toNat) rest

def encodeOutputs (outputs : List Output) : Except String (List UInt8 × Nat) :=
  encodeOutputsFrom [] 0 outputs

--- Inputs

namespace Input

def outpoint (input : Input) : List UInt8 × UInt32 :=
  (input.outpointTransactionHash, input.outpointIndex)

def prevout (input : Input) : List UInt8 :=
  input.outpointTransactionHash.reverse ++ bytesLE input.outpointIndex.toNat 4

end Input

/- The outpoints and the sequence numbers, as bytes. -/
def encodeInputs : List (List UInt8 × UInt32) → List Input → Except String (List UInt8 × List UInt8)
  | _, [] => .ok ([], [])
  | seen, input :: rest =>
    if input.outpointTransactionHash.length ≠ 32 then
      .error "input transaction id must contain 32 bytes"
    else if seen.contains input.outpoint then .error "duplicate transaction input"
    else do
      let (prevouts, sequences) ← encodeInputs (input.outpoint :: seen) rest
      .ok (input.prevout ++ prevouts, bytesLE input.sequenceNumber.toNat 4 ++ sequences)

--- Serialization

/- What is serialized of a context, field by field. -/
structure Preimage where
  prevouts : List UInt8
  sequences : List UInt8
  utxos : List UInt8
  outputs : List UInt8
  tokenBytes : List UInt8
  input : Input
  source : Output
deriving DecidableEq

namespace Preimage

/- The fields in their order, three or four of them hashed. -/
def serialize (sha256 : List UInt8 → Vector UInt8 32) (preimage : Preimage)
    (transaction : Transaction) (covered : List UInt8) (mode : UInt8) : List UInt8 :=
  bytesLE transaction.version.toNat 4 ++ (hash256 sha256 preimage.prevouts ++
      ((if mode = allOutputsAllUtxos then hash256 sha256 preimage.utxos
        else []) ++
        (hash256 sha256 preimage.sequences ++ (preimage.input.prevout ++
            (preimage.tokenBytes ++ (compact (UInt64.ofNat covered.length) ++
                (covered ++ (bytesLE preimage.source.valueSatoshis.toNat 8 ++
                    (bytesLE preimage.input.sequenceNumber.toNat 4 ++
                      (hash256 sha256 preimage.outputs ++
                        (bytesLE transaction.locktime.toNat 4 ++ bytesLE mode.toNat 4)))))))))))

end Preimage

/- The checks of a context, in their order. -/
def checkedPreimage (context : SigningContext) (covered : List UInt8) (mode : UInt8) :
    Except String Preimage :=
  let tx := context.transaction
  if mode ≠ allOutputs ∧ mode ≠ allOutputsAllUtxos then .error "unsupported connector signing mode"
  else if tx.inputs.isEmpty ||
      tx.outputs.isEmpty ||
      decide (maxItems < tx.inputs.length) ||
      decide (maxItems < tx.outputs.length) ||
      decide (context.sourceOutputs.length ≠ tx.inputs.length) ||
      decide (maxRequestBytes < covered.length)
  then .error "incomplete or oversized connector signing context"
  else
    match tx.inputs[context.inputIndex]?, context.sourceOutputs[context.inputIndex]?
    with
    | some input, some source => do
        let (prevouts, sequences) ← encodeInputs [] tx.inputs
        let (utxos, available) ← encodeOutputs context.sourceOutputs
        let (outputs, spent) ← encodeOutputs tx.outputs
        if available < spent then .error "transaction outputs exceed source value"
        else do
          let tokenBytes ← tokenPrefix source.token
          .ok { prevouts, sequences, utxos, outputs, tokenBytes, input, source }
    | _, _ => .error "input index is out of range"

def signingSerialization (sha256 : List UInt8 → Vector UInt8 32) (context : SigningContext)
    (covered : List UInt8) (mode : UInt8) : Except String (List UInt8) := do
  let preimage ← checkedPreimage context covered mode
  .ok (preimage.serialize sha256 context.transaction covered mode)

end OptnWallet.Connect
