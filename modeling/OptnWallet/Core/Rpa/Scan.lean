import OptnWallet.Core.Rpa.Payment

/-
  Finding the payments to a cash code in a raw transaction: every input that reveals a public key
  is tried against every output, and an output is reported once.

  Main declarations:
    * `Rpa.p2pkhInputPubkey`
    * `Rpa.scanTransaction`
-/

--- Unlocking Scripts

namespace OptnWallet.Rpa

/- How many bytes an opcode pushes, and what follows. -/
def pushLength (op : UInt8) (rest : List UInt8) : Option (Nat × List UInt8) :=
  if 1 ≤ op ∧ op ≤ 75 then some (op.toNat, rest)
  else if op = 0x4c then
    match rest with
    | length :: rest => some (length.toNat, rest)
    | [] => none
  else if op = 0x4d then
    match rest with
    | low :: high :: rest => some (natOfBytesLE [low, high], rest)
    | _ => none
  else none

/- Every pass takes an opcode off the script, so there are at most as many as the script has bytes.
   -/
def scriptPushes : Nat → List UInt8 → Option (List (List UInt8))
  | _, [] => some []
  | 0, _ :: _ => none
  | fuel + 1, op :: rest => do
      let (count, rest) ← pushLength op rest
      if rest.length < count then none
      else
        let pushes ← scriptPushes fuel (rest.drop count)
        some (rest.take count :: pushes)

/- The compressed key that is pushed last. -/
def p2pkhInputPubkey (scriptSig : List UInt8) : Option (Vector UInt8 33) := do
  let pushes ← scriptPushes scriptSig.length scriptSig
  let last ← pushes.getLast?
  if hLength : last.length = 33 then
    if last.head? = some 0x02 ∨ last.head? = some 0x03 then some ⟨last.toArray, hLength⟩
    else none
  else none

--- Scanning

structure RpaMatch where
  outputIndex : UInt32
  address : String
  value : UInt64
  prevoutTxid : String
  prevoutIndex : UInt32
  senderPubkeyHex : String
  secret : Vector UInt8 32
deriving DecidableEq

/- The indexes that were reported, and the reports. -/
structure ScanState where
  seen : List Nat
  found : List RpaMatch
deriving DecidableEq

variable (primitives : RpaPrimitives)

/- An output that pays the expected address, unless it was reported before.  `position` is where the
   output stands. -/
def reportOutput (input : ParsedInput) (sender : Vector UInt8 33) (secret : Vector UInt8 32)
    (expected : Address) (state : ScanState) (output : DecodedOutput) (position : Nat) :
    Except (Fault CliError) ScanState :=
  if output.scriptPubkey ≠ expected.scriptPubkey ∨ position ∈ state.seen
  then .ok state
  else
    match expected.encode with
    | none => .error .panic
    | some address => .ok
        { seen := position :: state.seen
          found :=
            state.found ++
              [{ outputIndex := UInt32.ofNat position
                 address
                 value := output.value
                 prevoutTxid := input.1
                 prevoutIndex := input.2.1
                 senderPubkeyHex := hexString sender.toList
                 secret }] }

/- The input against every output.  An input without a key or a secret is passed over; any other
   error ends the scan. -/
def scanInput (scanPrivkey : Vector UInt8 32) (spendPubkey : Vector UInt8 33) (network : Network)
    (outputs : List DecodedOutput) (state : ScanState) (input : ParsedInput) :
    Except (Fault CliError) ScanState :=
  match p2pkhInputPubkey input.2.2 with
  | none => .ok state
  | some sender =>
    match sharedSecret primitives scanPrivkey sender input.1 input.2.1
    with
    | .error _ => .ok state
    | .ok secret => do
        let expected ← (paymentAddress primitives spendPubkey secret network 0).mapError Fault.error
        outputs.zipIdx.foldlM
          (fun state output => reportOutput input sender secret expected state output.1 output.2)
          state

def scanTransaction (raw : List UInt8) (scanPrivkey : Vector UInt8 32)
    (spendPubkey : Vector UInt8 33) (network : Network) :
    Except (Fault CliError) (List RpaMatch) := do
  let parsed ← (parseTransaction raw).mapError Fault.error
  let decoded ← (OptnWallet.decode raw).mapError Fault.error
  let state ← parsed.1.foldlM (scanInput primitives scanPrivkey spendPubkey network decoded.outputs)
      { seen := [], found := [] }
  .ok state.found

end OptnWallet.Rpa
