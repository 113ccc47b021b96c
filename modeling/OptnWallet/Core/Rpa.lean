import OptnWallet.Core.Tx

/-
  The transaction parser that scanning for payments to a cash code uses: inputs with their
  unlocking scripts, and outputs with their whole locking fields.

  Main declarations:
    * `Rpa.parseTransaction`
-/

--- Display Order

namespace OptnWallet

open ByteFormat

/- Two lower-case digits for each byte. -/
def hexString (bytes : List UInt8) : String :=
  String.ofList
    (bytes.flatMap (fun byte => [Nat.digitChar (byte.toNat / 16), Nat.digitChar (byte.toNat % 16)]))

--- Parsing

namespace Rpa

/- A display txid, an index and an unlocking script. -/
abbrev ParsedInput : Type := String × UInt32 × List UInt8

/- A value and a locking field. -/
abbrev ParsedOutput : Type := UInt64 × List UInt8

abbrev ParsedTransaction : Type := List ParsedInput × List ParsedOutput

def varint : Reader CliError UInt64 :=
  compactSize truncated (minimal (.protocol "transaction uses non-canonical CompactSize"))

/-
  The display txid is the reverse of the outpoint's bytes on the wire.
-/
def parseInput : Reader CliError ParsedInput := do
  Reader.need truncated 0 36
  let txid ← Reader.peek 0 32
  let vout ← Reader.peek 32 4
  Reader.advance 36
  let len ← varint
  Reader.need truncated 0 len.toNat
  let scriptSig ← Reader.peek 0 len.toNat
  Reader.need truncated len.toNat 4
  Reader.advance (len.toNat + 4)
  pure (hexString txid.reverse, UInt32.ofNat (natOfBytesLE vout), scriptSig)

def parseOutput : Reader CliError ParsedOutput := do
  Reader.need truncated 0 8
  let value ← Reader.peek 0 8
  Reader.advance 8
  let len ← varint
  Reader.need truncated 0 len.toNat
  let script ← Reader.peek 0 len.toNat
  Reader.advance len.toNat
  pure (UInt64.ofNat (natOfBytesLE value), script)

/- The version and the locktime are stepped over. -/
def parseFields : Reader CliError ParsedTransaction := do
  Reader.need truncated 0 4
  Reader.advance 4
  let inputCount ← varint
  let inputs ← Reader.many parseInput inputCount.toNat
  let outputCount ← varint
  let outputs ← Reader.many parseOutput outputCount.toNat
  Reader.need truncated 0 4
  Reader.advance 4
  pure (inputs, outputs)

def parseTransaction (raw : List UInt8) : Except CliError ParsedTransaction :=
  parseFields.readAll (.protocol "transaction has trailing bytes") raw

end Rpa

end OptnWallet
