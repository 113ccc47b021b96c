import OptnWallet.Core.Tx.Layout
import OptnWallet.Runtime.SyncWorker

/-
  What a compact-filter provider reads of a full block: its transactions, which of them touch what
  is watched, and that they hash to the root in its header.

  Main declarations:
    * `parseTxShape`
    * `merkleRoot`
    * `parseRelevantBlock`
-/

--- Fields

namespace OptnWallet

open ByteFormat

inductive ChainBackendError where
  | unsupported
  | offline
  | timeout
  | protocol (message : String)
  | invalidResponse (message : String)
  | rejected (message : String)
deriving DecidableEq

namespace Neutrino

/- Positions are 64 bits wide. -/
def take (count : Nat) : Reader ChainBackendError (List UInt8) :=
  fun bytes position =>
    if 2 ^ 64 ≤ position + count then .error (.invalidResponse "length overflow")
    else Reader.take (.invalidResponse "truncated message") count bytes position

def readU32 : Reader ChainBackendError UInt32 := do
  let bytes ← take 4
  return UInt32.ofNat (natOfBytesLE bytes)

/- At any width. -/
def readVarint : Reader ChainBackendError UInt64 := do
  let first ← take 1
  let first := first.headD 0
  let payload ← take (payloadWidth first)
  return compactValue first payload

/- A check that reads nothing. -/
def check (holds : Bool) (message : String) : Reader ChainBackendError Unit :=
  Reader.lift (if holds then .ok () else .error (.invalidResponse message))

--- Transactions

/- What a refresh looks for: scripts and spent outpoints. -/
structure Watched where
  scripts : List (List UInt8)
  outpoints : List (TxId × UInt32)
deriving DecidableEq

def readTxid : Reader ChainBackendError TxId :=
  fun bytes position =>
    if 2 ^ 64 ≤ position + 32 then .error (.invalidResponse "length overflow")
    else Reader.takeArray (.invalidResponse "truncated message") 32 bytes position

/- Whether an input spends a watched outpoint.  The one of a coinbase spends none. -/
def inputTouches (watched : Watched) (isCoinbase : Bool) : Reader ChainBackendError Bool := do
  let prevTxid ← readTxid
  let vout ← readU32
  let scriptLen ← readVarint
  let _ ← take scriptLen.toNat
  let _ ← take 4
  let spends := watched.outpoints.contains (prevTxid, vout)
  return !isCoinbase && spends

/- Whether the script field of an output is a watched script. -/
def outputTouches (watched : Watched) : Reader ChainBackendError Bool := do
  let _ ← take 8
  let scriptLen ← readVarint
  let script ← take scriptLen.toNat
  return watched.scripts.contains script

/- Read one transaction, and whether it touches what is watched. -/
def parseTxShape (watched : Watched) (isCoinbase : Bool) : Reader ChainBackendError Bool := do
  let _ ← take 4
  let inputCount ← readVarint
  check (inputCount ≤ 1000000) "too many tx inputs"
  let inputs ← Reader.many (inputTouches watched isCoinbase) inputCount.toNat
  let outputCount ← readVarint
  check (outputCount ≤ 1000000) "too many tx outputs"
  let outputs ← Reader.many (outputTouches watched) outputCount.toNat
  let _ ← take 4
  return inputs.any id || outputs.any id

--- Merkle Roots

def hashPair (sha256 : List UInt8 → Vector UInt8 32) (left right : TxId) : TxId :=
  doubleSha256 sha256 (left.toList ++ right.toList)

/- The layer above.  An odd last node meets itself, and two equal siblings are refused. -/
def merkleLayer (sha256 : List UInt8 → Vector UInt8 32) :
    List TxId → Except ChainBackendError (List TxId)
  | [] => .ok []
  | [left] => .ok [hashPair sha256 left left]
  | left :: right :: rest =>
    if right = left then .error (.invalidResponse "duplicate merkle siblings")
    else do
      let next ← merkleLayer sha256 rest
      .ok (hashPair sha256 left right :: next)

/- Layers are built until one node remains, and each has fewer nodes than the one below. -/
def merkleLoop (sha256 : List UInt8 → Vector UInt8 32) :
    Nat → List TxId → Except ChainBackendError TxId
  | _, [] => .error (.invalidResponse "empty merkle tree")
  | _, [root] => .ok root
  | 0, root :: _ => .ok root
  | fuel + 1, layer => do
      let next ← merkleLayer sha256 layer
      merkleLoop sha256 fuel next

variable (sha256 : List UInt8 → Vector UInt8 32)

def merkleRoot (layer : List TxId) : Except ChainBackendError TxId :=
  merkleLoop sha256 layer.length layer

--- Blocks

/- A transaction with the bytes it was read from. -/
structure ReadTransaction where
  raw : List UInt8
  touches : Bool
deriving DecidableEq

def readTransaction (watched : Watched) (isCoinbase : Bool) :
    Reader ChainBackendError ReadTransaction :=
  fun block start =>
    match parseTxShape watched isCoinbase block start with
    | .error error => .error error
    | .ok (touches, stop) => .ok ({ raw := (block.drop start).take (stop - start), touches }, stop)

/- The coinbase and the transactions behind it. -/
def readTransactions (watched : Watched) : Reader ChainBackendError (List ReadTransaction) := do
  let count ← readVarint
  check (count ≠ 0 ∧ count ≤ 10000000) "invalid block transaction count"
  let coinbase ← readTransaction watched true
  let rest ← Reader.many (readTransaction watched false) (count.toNat - 1)
  return coinbase :: rest

def ReadTransaction.observed (height : UInt32) (transaction : ReadTransaction) :
    ObservedTransaction :=
  { txid := doubleSha256 sha256 transaction.raw
    raw := transaction.raw
    blockHeight := some height }

/- The transactions of a block that touch what is watched. -/
def parseRelevantBlock (block : List UInt8) (expectedHash : TxId) (height : UInt32)
    (watched : Watched) : Except ChainBackendError (List ObservedTransaction) :=
  if block.length < 80 then .error (.invalidResponse "block shorter than 80 bytes")
  else if doubleSha256 sha256 (block.take 80) ≠ expectedHash then
    .error (.invalidResponse "block header hash mismatch")
  else
    match readTransactions watched block 80 with
    | .error error => .error error
    | .ok (transactions, stop) =>
      if stop ≠ block.length then
        .error (.invalidResponse "trailing bytes after block transactions")
      else do
        let root ← merkleRoot sha256
            (transactions.map (fun transaction => doubleSha256 sha256 transaction.raw))
        if root.toList ≠ (block.drop 36).take 32 then
          .error (.invalidResponse "full block merkle root mismatch")
        else
          .ok
            ((transactions.filter ReadTransaction.touches).map
              (ReadTransaction.observed sha256 height))

end Neutrino

end OptnWallet
