import OptnWallet.Core.Fusion.Schnorr.Blind
import OptnWallet.Fusion.Tx

/-
  The signer of fusions between peers.  It rebuilds the template from a request and signs the
  owned inputs once everything was checked.

  Main declarations:
    * `Fusion.P2pSign.Request` and `Fusion.P2pSign.Response`
    * `Fusion.P2pSign.signP2p`
-/

--- Requests

namespace OptnWallet.Fusion

namespace P2pSign

open Schnorr (Curve Signature fromRepr pubkeyCompressed)
open WordSums Word64

def maxInputs : Nat := 500

def maxOutputs : Nat := 500

def maxScriptBytes : Nat := 10000

def maxTemplateBytes : Nat := 200 * 1024

def maxFeerate : UInt64 := 100000

/- Bytes are hexadecimal text of either case. -/
structure SignInput where
  prevTxid : String
  prevIndex : UInt32
  pubkey : String
  value : UInt64
deriving DecidableEq

structure SignOutput where
  script : String
  value : UInt64
deriving DecidableEq

structure OwnedInput where
  prevTxid : String
  prevIndex : UInt32
  pubkey : String
  value : UInt64
  privateKey : String
deriving DecidableEq

/- The fee rate is in satoshis for each 1000 bytes. -/
structure Request where
  protocol : String
  network : String
  session : String
  transcriptHash : String
  templateHash : String
  inputs : List SignInput
  outputs : List SignOutput
  ownedInputs : List OwnedInput
  ownedOutputs : List SignOutput
  feerate : UInt64
  maxFee : UInt64
deriving DecidableEq

structure InputSignature where
  outpoint : String
  signature : String
deriving DecidableEq

structure Response where
  protocol : String
  templateHash : String
  fee : UInt64
  signatures : List InputSignature
deriving DecidableEq

--- Hexadecimal Text

def utf8 (text : String) : List UInt8 := Cashaddr.utf8 text.toList

def isAsciiHexdigit (byte : UInt8) : Bool := (hexNibble byte).isSome

/- The bytes of digits that were checked. -/
def digitPairs (value label : String) : Except String (List UInt8) :=
  match hexPairs (utf8 value) with
  | some bytes => .ok bytes
  | none => .error (label ++ " is invalid hex")

def decodeHex32 (value label : String) : Except String (Vector UInt8 32) := do
  if (utf8 value).length ≠ 64 ∨ !(utf8 value).all isAsciiHexdigit then
    .error (label ++ " must be 64 hex characters")
  else do
    let bytes ← digitPairs value label
    if hLength : bytes.length = 32 then .ok ⟨bytes.toArray, hLength⟩
    else .error (label ++ " is invalid hex")

def decodeVec (value label : String) (maxBytes : Nat) : Except String (List UInt8) :=
  if (utf8 value).length % 2 ≠ 0 ∨ maxBytes * 2 < (utf8 value).length ∨
      !(utf8 value).all isAsciiHexdigit then
    .error (label ++ " is invalid or oversized hex")
  else digitPairs value label

/- The text of an outpoint has digits of the lower case. -/
def outpoint (txid : String) (index : UInt32) : String :=
  String.ofList (txid.toList.map Char.toLower) ++ ":" ++ toString index.toNat

--- Templates

/- What was read of the inputs.  `declared` has the key and the value of each outpoint. -/
structure Inputs where
  total : UInt64
  canonical : List P2pInput
  declared : List (String × (List UInt8 × UInt64))

def addInput (state : Inputs) (input : SignInput) : Except String Inputs := do
  let txid ← decodeHex32 input.prevTxid "input txid"
  let pubkey ← decodeVec input.pubkey "input pubkey" 65
  if pubkey.length ≠ 33 then .error "P2P Fusion requires compressed input pubkeys"
  else
    let key := outpoint input.prevTxid input.prevIndex
    if (state.declared.lookup key).isSome then .error "duplicate P2P Fusion input outpoint"
    else
      match checkedAdd state.total input.value with
      | none => .error "input value overflow"
      | some total =>
        .ok
          { total
            canonical :=
              state.canonical ++
                [{ prevTxid := txid, prevIndex := input.prevIndex, pubkey, value := input.value }]
            declared := state.declared ++ [(key, (pubkey, input.value))] }

structure Outputs where
  total : UInt64
  canonical : List P2pOutput

/- Scripts and values are there once together. -/
def addOutput (state : Outputs) (output : SignOutput) : Except String Outputs := do
  let script ← decodeVec output.script "output script" maxScriptBytes
  if script = [] then .error "P2P Fusion output script is empty"
  else
    match checkedAdd state.total output.value with
    | none => .error "output value overflow"
    | some total =>
      let canonical : P2pOutput := { script, value := output.value }
      if state.canonical.contains canonical then .error "duplicate exact P2P Fusion output"
      else .ok { total, canonical := state.canonical ++ [canonical] }

def claimedOutput (output : SignOutput) : Except String P2pOutput := do
  let script ← decodeVec output.script "owned output script" maxScriptBytes
  .ok { script, value := output.value }

section

variable (inputs : List P2pInput) (outputs : List P2pOutput)

/- Ten bytes, and those of the signed inputs and of the outputs. -/
def estimatedSize : Nat :=
  10 + (inputs.map (fun input => 108 + input.pubkey.length)).sum +
    (outputs.map (fun output => 9 + output.script.length)).sum

def requiredFee (feerate : UInt64) : Nat :=
  (estimatedSize inputs outputs * feerate.toNat + 999) / 1000

/- The sums are checked in 64 bits as they grow, which is the same as checking what they come to. -/
def checkFee (fee feerate maxFee : UInt64) : Except String Unit :=
  let required := requiredFee inputs outputs feerate
  if 2 ^ 64 ≤ estimatedSize inputs outputs then .error "P2P Fusion fee size overflow"
  else if 2 ^ 64 ≤ estimatedSize inputs outputs * feerate.toNat + 999 then
    .error "P2P Fusion required fee overflow"
  else if 2 ^ 64 ≤ required * 3 then .error "P2P Fusion maximum fee overflow"
  else if fee.toNat < required then .error
      ("P2P Fusion fee " ++ toString fee.toNat ++ " is below required minimum " ++
        toString required)
  else if required * 3 < fee.toNat ∨ maxFee < fee then .error
      ("P2P Fusion fee " ++ toString fee.toNat ++ " exceeds policy maximum " ++
        toString (required * 3) ++ " or caller maximum " ++ toString maxFee.toNat)
  else .ok ()

end

def templateHexChars (request : Request) : Nat :=
  (request.inputs.map (fun input => (utf8 input.prevTxid).length + (utf8 input.pubkey).length)).sum
      + (request.outputs.map (fun output => (utf8 output.script).length)).sum +
    (request.ownedOutputs.map (fun output => (utf8 output.script).length)).sum

def checkBounds (request : Request) : Except String Unit :=
  if request.inputs = [] ∨ maxInputs < request.inputs.length ∨ request.outputs = [] ∨
      maxOutputs < request.outputs.length ∨
      request.ownedInputs = [] ∨
      request.inputs.length < request.ownedInputs.length ∨
      request.ownedOutputs = [] ∨
      request.outputs.length < request.ownedOutputs.length then
    .error "P2P Fusion request has invalid input/output bounds"
  else if 2 ^ 64 ≤ templateHexChars request then .error "P2P Fusion template size overflow"
  else if maxTemplateBytes * 2 < templateHexChars request then
    .error "P2P Fusion template exceeds size limit"
  else .ok ()

--- Signing

variable {n : Nat} {Point : Type} [AddCommGroup Point] [Module (ZMod n) Point] [DecidableEq Point]
variable (curve : Curve n Point) (sha256 : List UInt8 → Vector UInt8 32)
variable (ripemd160 : List UInt8 → Vector UInt8 20)
variable (hmac : List UInt8 → List UInt8 → Vector UInt8 32) (fuel : Nat)

/- "OPTN-P2P-FUSION-V3" and a zero byte -/
def templateTag : List UInt8 :=
  [0x4f, 0x50, 0x54, 0x4e, 0x2d, 0x50, 0x32, 0x50, 0x2d, 0x46, 0x55, 0x53, 0x49, 0x4f, 0x4e, 0x2d,
    0x56, 0x33, 0x00]

def boundTemplateHash (network : String) (session transcript unsignedTxHash : Vector UInt8 32) :
    Vector UInt8 32 :=
  sha256
    (templateTag ++ utf8 network ++ [0] ++ session.toList ++ transcript.toList ++
      unsignedTxHash.toList)

def signatureBytes (sig : Signature) : List UInt8 := sig.rx.toList ++ sig.s.toList

/- A private scalar that is not zero. -/
def parsePrivate (privateKey : String) : Except String (ZMod n) := do
  let bytes ← decodeHex32 privateKey "private key"
  match fromRepr bytes with
  | some privateScalar =>
    if privateScalar = 0 then .error "private key is outside secp256k1 range"
    else .ok privateScalar
  | none => .error "private key is outside secp256k1 range"

/- The outpoints that were signed for, and the signatures. -/
abbrev Signed := List String × List InputSignature

def signOwned (inputs : List SignInput) (declared : List (String × (List UInt8 × UInt64)))
    (tx : FusionTx) (state : Signed) (owned : OwnedInput) : Except (Fault String) Signed := do
  let key := outpoint owned.prevTxid owned.prevIndex
  if state.1.contains key then .error (.error "duplicate owned P2P Fusion input")
  else
    match declared.lookup key with
    | none => .error (.error "owned input is absent from P2P template")
    | some (declaredPubkey, declaredValue) => do
        let ownedPubkey ← (decodeVec owned.pubkey "owned pubkey" 65).mapError Fault.error
        if ownedPubkey ≠ declaredPubkey then
          .error (.error "owned input pubkey differs from P2P template")
        else if owned.value ≠ declaredValue then
          .error (.error "owned input value differs from P2P template")
        else do
          let privateScalar ← (parsePrivate (n := n) owned.privateKey).mapError Fault.error
          let pubkey ← pubkeyCompressed curve privateScalar
          if pubkey.toList ≠ ownedPubkey then
            .error (.error ("private key does not own the declared " ++ "input pubkey"))
          else
            match inputs.findIdx?
                (fun input => outpoint input.prevTxid input.prevIndex ==
                    key) with
            | none => .error (.error "owned input index is missing")
            | some inputIndex => do
                let digest ← (tx.sighash sha256 ripemd160 inputIndex).mapError Fault.error
                let signature ← Schnorr.sign curve sha256 hmac fuel privateScalar digest
                .ok (state.1 ++ [key],
                    state.2 ++
                      [{ outpoint := key, signature := hexString (signatureBytes signature) }])

/- Everything that is checked before the owned inputs: the template, its bound hash and the fee. -/
structure Template where
  inputs : Inputs
  tx : FusionTx
  hash : Vector UInt8 32
  fee : UInt64

def buildTemplate (request : Request) : Except String Template := do
  if request.protocol ≠ "p2p-v3" then .error "unsupported P2P Fusion protocol"
  else if request.network ≠ "mainnet" ∧ request.network ≠ "chipnet" then
    .error "unsupported P2P Fusion network"
  else if request.feerate = 0 ∨ maxFeerate < request.feerate then
    .error "P2P Fusion fee rate is outside policy bounds"
  else do
    let session ← decodeHex32 request.session "session"
    let transcript ← decodeHex32 request.transcriptHash "transcript hash"
    let expectedTemplate ← decodeHex32 request.templateHash "template hash"
    checkBounds request
    let inputs ← request.inputs.foldlM addInput { total := 0, canonical := [], declared := [] }
    let outputs ← request.outputs.foldlM addOutput { total := 0, canonical := [] }
    match checkedSub inputs.total outputs.total with
    | none => .error "outputs exceed inputs"
    | some fee => do
        checkFee inputs.canonical outputs.canonical fee request.feerate request.maxFee
        let claimed ← request.ownedOutputs.mapM claimedOutput
        if claimed = [] ∨ claimed.any
              (fun output =>
                decide
                  (outputs.canonical.count output < claimed.count output)) then
          .error ("not every owned output is present in the P2P " ++ "template")
        else do
          let tx ← FusionTx.fromP2p inputs.canonical outputs.canonical
          let actualTemplate :=
            boundTemplateHash sha256 request.network session transcript
              (tx.unsignedTemplateHash sha256)
          if actualTemplate ≠ expectedTemplate then .error "P2P Fusion template hash mismatch"
          else .ok { inputs, tx, hash := actualTemplate, fee }

def signP2p (request : Request) : Except (Fault String) Response := do
  let template ← (buildTemplate sha256 request).mapError Fault.error
  let signed ← request.ownedInputs.foldlM
      (signOwned curve sha256 ripemd160 hmac fuel request.inputs template.inputs.declared
        template.tx) ([], [])
  .ok
    { protocol := "p2p-v3"
      templateHash := hexString template.hash.toList
      fee := template.fee
      signatures := signed.2 }

end P2pSign

end OptnWallet.Fusion
