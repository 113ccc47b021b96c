import OptnWallet.Core.Token

/-
  Transactions: how they are serialized and how raw bytes are decoded.

  Main declarations:
    * `Transaction.serialize`
    * `decode`
-/

--- Serialization

namespace OptnWallet

open ByteFormat

/- An output being spent, in internal hash order. -/
structure Utxo where
  txid : Vector UInt8 32
  vout : UInt32
  value : UInt64
  scriptPubkey : List UInt8
deriving DecidableEq

structure Output where
  value : UInt64
  scriptPubkey : List UInt8
  tokenPrefix : Option (List UInt8)
deriving DecidableEq

/- Prefix and locking script as one length-counted field. -/
def Output.lockingField (output : Output) : List UInt8 :=
  match output.tokenPrefix with
  | some bytes => bytes ++ output.scriptPubkey
  | none => output.scriptPubkey

/- One sequence number serves every input. -/
structure Transaction where
  version : UInt32
  inputs : List Utxo
  outputs : List Output
  locktime : UInt32
  sequence : UInt32
deriving DecidableEq

namespace Transaction

/- The inputs from index `i` on. -/
def serializeInputs (sequence : UInt32) (scriptSigs : List (List UInt8)) :
    Nat → List Utxo → List UInt8
  | _, [] => []
  | i, input :: inputs =>
    let sig := (scriptSigs[i]?).getD []
    input.txid.toList ++ bytesLE input.vout.toNat 4 ++ varint (UInt64.ofNat sig.length) ++ sig ++
      bytesLE sequence.toNat 4 ++ serializeInputs sequence scriptSigs (i + 1) inputs

def serializeOutput (output : Output) : List UInt8 :=
  let field := output.lockingField
  bytesLE output.value.toNat 8 ++ varint (UInt64.ofNat field.length) ++ field

def serialize (tx : Transaction) (scriptSigs : List (List UInt8)) : List UInt8 :=
  bytesLE tx.version.toNat 4 ++ varint (UInt64.ofNat tx.inputs.length) ++
    serializeInputs tx.sequence scriptSigs 0 tx.inputs ++ varint (UInt64.ofNat tx.outputs.length) ++
    tx.outputs.flatMap serializeOutput ++ bytesLE tx.locktime.toNat 4

end Transaction

--- Decoding

structure DecodedOutput where
  value : UInt64
  scriptPubkey : List UInt8
  token : Option TokenData
deriving DecidableEq

/- Inputs are outpoints with their sequence numbers. -/
structure Decoded where
  version : UInt32
  inputs : List (Vector UInt8 32 × UInt32 × UInt32)
  outputs : List DecodedOutput
  locktime : UInt32
deriving DecidableEq

def truncated : CliError :=
  .protocol "transaction is truncated"

/- Four bytes always convert to a word. -/
def takeU32 : Reader CliError UInt32 := do
  let bytes ← Reader.take truncated 4
  pure (UInt32.ofNat (natOfBytesLE bytes))

def takeU64 : Reader CliError UInt64 := do
  let bytes ← Reader.take truncated 8
  pure (UInt64.ofNat (natOfBytesLE bytes))

def takeVarint : Reader CliError UInt64 :=
  compactSize (.protocol "transaction ends mid-varint")
    (minimal (.protocol "non-canonical CompactSize"))

def decodeInput : Reader CliError (Vector UInt8 32 × UInt32 × UInt32) := do
  let txid ← Reader.takeArray truncated 32
  let vout ← takeU32
  let scriptLen ← takeVarint
  let _ ← Reader.take truncated scriptLen.toNat
  let sequence ← takeU32
  pure (txid, vout, sequence)

/- The token prefix of a field, if it starts with one, and the locking script behind it. -/
def splitField (field : List UInt8) : Except CliError (Option TokenData × List UInt8) :=
  if field.head? = some prefixToken then
    match TokenData.decodePrefix field with
    | .ok (data, used) => .ok (some data, field.drop used)
    | .error error => .error error
  else .ok (none, field)

def decodeOutput : Reader CliError DecodedOutput := do
  let value ← takeU64
  let fieldLen ← takeVarint
  let field ← Reader.take truncated fieldLen.toNat
  let split ← Reader.lift (splitField field)
  pure { value, scriptPubkey := split.2, token := split.1 }

def decodeTransaction : Reader CliError Decoded := do
  let version ← takeU32
  let inputCount ← takeVarint
  let inputs ← Reader.many decodeInput inputCount.toNat
  let outputCount ← takeVarint
  let outputs ← Reader.many decodeOutput outputCount.toNat
  let locktime ← takeU32
  pure { version, inputs, outputs, locktime }

/- Decode a raw transaction. -/
def decode (bytes : List UInt8) : Except CliError Decoded :=
  decodeTransaction.readAll (.protocol "transaction has trailing bytes") bytes

end OptnWallet
