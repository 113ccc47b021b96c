import OptnWallet.Core.Network
import OptnWallet.Core.Rpa
import OptnWallet.Library.RecordMap

/-
  The envelope in which a transaction travels to a signer without a connection: how it is parsed,
  what is checked before it is shown, and how an unsigned transaction is written into it.

  Main declarations:
    * `Psbt.parse`
    * `Psbt.checkWatchOnly`
    * `Psbt.unsignedTransaction`
    * `Psbt.encodeUnsignedWithSighash`
-/

--- Field Types

namespace OptnWallet

open ByteFormat

namespace Psbt

/- The letters `psbt` and a byte that is no text. -/
def psbtMagic : List UInt8 := [0x70, 0x73, 0x62, 0x74, 0xff]

def globalUnsignedTx : UInt8 := 0x00
def globalXpub : UInt8 := 0x01
def globalInputCount : UInt8 := 0x04
def globalOutputCount : UInt8 := 0x05
def globalVersion : UInt8 := 0xfb

def inNonWitnessUtxo : UInt8 := 0x00
def inWitnessUtxo : UInt8 := 0x01
def inPartialSig : UInt8 := 0x02
def inSighashType : UInt8 := 0x03
def inRedeemScript : UInt8 := 0x04
def inBip32Derivation : UInt8 := 0x06
def inPreviousTxid : UInt8 := 0x0e
def inOutputIndex : UInt8 := 0x0f
def inSequence : UInt8 := 0x10

def outRedeemScript : UInt8 := 0x00
def outBip32Derivation : UInt8 := 0x02
def outAmount : UInt8 := 0x03
def outScript : UInt8 := 0x04
def outCashtoken : UInt8 := 0x36

--- Signature Hash Types

def sighashAllForkid : UInt32 := 0x41
def sighashAllForkidAnyonecanpay : UInt32 := 0xc1
def sighashForkidBit : UInt32 := 0x40

/- Three base types, each with and without anyone-can-pay. -/
def supportedSighashes : List UInt32 :=
  [sighashAllForkid, 0x42, 0x43, sighashAllForkidAnyonecanpay, 0xc2, 0xc3]

/- Lower-case digits after `0x`, at least two of them. -/
def alternateHex (value : UInt32) : String :=
  let digits := Nat.toDigits 16 value.toNat
  "0x" ++ String.ofList (List.replicate (2 - digits.length) '0') ++ String.ofList digits

/- Whether a signer may be asked for this type. -/
def checkSighash (value : UInt32) : Except CliError Unit :=
  if value &&& sighashForkidBit = 0 then .error
      (.usage ("sighash " ++ alternateHex value ++ " has no SIGHASH_FORKID bit; a BCH signature" ++
          " without it is rejected at broadcast, long after" ++ " the device has signed"))
  else if value ∉ supportedSighashes then .error
      (.usage (alternateHex value ++ " is not a supported BCH sighash; this wallet signs" ++
          " with one of " ++ String.intercalate ", " (supportedSighashes.map alternateHex)))
  else .ok ()

--- Reading Maps

namespace Cursor

def midRecord : CliError :=
  .protocol "PSBT ends mid-record"

def compactSize : Reader CliError UInt64 :=
  OptnWallet.compactSize midRecord (minimal (.protocol "PSBT has a non-minimal CompactSize"))

def recordBytes : Reader CliError (List UInt8) := do
  let len ← compactSize
  Reader.take midRecord len.toNat

/-
  A key starts with a canonical type, carries no data behind a singleton type and was not in the
  map before.
-/
def checkKey (singletonTypes : List UInt8) (keys : List (List UInt8)) (key : List UInt8) :
    Except CliError Unit :=
  match compactSize key 0 with
  | .error error => .error error
  | .ok _ =>
    if key.length ≠ 1 ∧ singletonTypes.contains (key.headD 0) then
      .error (.protocol "PSBT singleton key contains key data")
    else if keys.contains key then .error (.protocol "PSBT map contains a duplicate key")
    else .ok ()

def readMap (singletonTypes : List UInt8) : Reader CliError (List RecordMap.Field) :=
  RecordMap.readMap recordBytes (checkKey singletonTypes) midRecord

end Cursor

end Psbt

--- Parsed Envelopes

/- Where a public key comes from. -/
structure KeyOrigin where
  pubkey : Vector UInt8 33
  fingerprint : Vector UInt8 4
  path : List UInt32
deriving DecidableEq

/- The form in which an input carries the output it spends. -/
inductive UtxoField where
  | nonWitness
  | witness
deriving DecidableEq

structure PsbtInput where
  sighashType : Option UInt32 := none
  utxo : Option UtxoField := none
  origins : List KeyOrigin := []
deriving DecidableEq

structure Psbt where
  unsignedTx : List UInt8
  inputs : List PsbtInput
  outputCount : Nat
deriving DecidableEq

namespace Psbt

--- Input Maps

/- The whole little-endian words that bytes start with. -/
def pathSteps : List UInt8 → List UInt32
  | b₀ :: b₁ :: b₂ :: b₃ :: bytes => UInt32.ofNat (natOfBytesLE [b₀, b₁, b₂, b₃]) :: pathSteps bytes
  | _ => []

def keyOrigin (index : Nat) (key value : List UInt8) : Except CliError KeyOrigin :=
  if hPubkey : (key.drop 1).length = 33 then
    if hValue : value.length < 4 ∨ (value.length - 4) % 4 ≠ 0 then .error
        (.protocol ("input " ++ toString index ++ ": a derivation record is a 4-byte fingerprint" ++
            " then whole path steps, got " ++ toString value.length ++ " bytes"))
    else .ok
        { pubkey := ⟨(key.drop 1).toArray, hPubkey⟩
          fingerprint :=
            ⟨(value.take 4).toArray, by
              rw [List.size_toArray, List.length_take]
              omega⟩
          path := pathSteps (value.drop 4) }
  else .error
      (.protocol ("input " ++ toString index ++ ": a derivation key needs a 33-byte compressed" ++
          " pubkey"))

/- The form of an output that a key of one byte announces. -/
def utxoField (key : List UInt8) : Option UtxoField :=
  if key = [inNonWitnessUtxo] then some .nonWitness
  else if key = [inWitnessUtxo] then some .witness
  else none

/- A second form is refused, whichever came first. -/
def noteUtxo (index : Nat) (input : PsbtInput) (key : List UInt8) : Except CliError PsbtInput :=
  match utxoField key with
  | none => .ok input
  | some utxo =>
    if input.utxo ≠ none ∧ input.utxo ≠ some utxo then .error
        (.protocol ("input " ++ toString index ++ " carries both utxo forms; a reader that takes" ++
            " the last one would behave differently" ++
            " depending on the order they were written in"))
    else .ok { input with utxo := some utxo }

def noteField (index : Nat) (input : PsbtInput) (field : RecordMap.Field) :
    Except CliError PsbtInput := do
  let input ← noteUtxo index input field.1
  if field.1.head? = some inSighashType then
    if field.2.length ≠ 4 then
      .error
        (.protocol ("input " ++ toString index ++ ": sighash type is " ++ toString field.2.length ++
            " bytes, not 4"))
    else .ok { input with sighashType := some (UInt32.ofNat (natOfBytesLE field.2)) }
  else if field.1.head? = some inBip32Derivation then do
    let origin ← keyOrigin index field.1 field.2
    .ok { input with origins := input.origins ++ [origin] }
  else .ok input

def inputFromFields (index : Nat) (fields : List RecordMap.Field) : Except CliError PsbtInput :=
  fields.foldlM (noteField index) {}

--- Parsing

def globalSingletons : List UInt8 :=
  [globalUnsignedTx, globalVersion, globalInputCount, globalOutputCount]

/- The witness script and the final scripts among them. -/
def inputSingletons : List UInt8 :=
  [inNonWitnessUtxo, inWitnessUtxo, inSighashType, inRedeemScript, 0x05, 0x07, 0x08, inPreviousTxid,
    inOutputIndex, inSequence]

def outputSingletons : List UInt8 := [outRedeemScript, 0x01, outAmount, outScript, outCashtoken]

/- The value of the first record under a key of one byte. -/
def lookup (kind : UInt8) (fields : List RecordMap.Field) : Option (List UInt8) :=
  (fields.find? (fun field => field.1 = [kind])).map Prod.snd

/- A count, where there is one, is the transaction's. -/
def checkCount (global : List RecordMap.Field) (kind : UInt8) (expected : Nat) :
    Except CliError Unit :=
  match lookup kind global with
  | none => .ok ()
  | some value =>
    match Cursor.compactSize value 0 with
    | .error error => .error error
    | .ok (count, stop) =>
      if count ≠ UInt64.ofNat expected ∨ stop ≠ value.length then
        .error (.protocol ("PSBT count disagrees with its unsigned" ++ " transaction"))
      else .ok ()

/-
  The unsigned transaction of the global map, with what its inputs and outputs parse to.
-/
def unsignedTransactionOf (global : List RecordMap.Field) :
    Except CliError (List UInt8 × Rpa.ParsedTransaction) := do
  match lookup globalUnsignedTx global with
  | none => .error (.protocol "PSBT has no unsigned transaction")
  | some unsignedTx =>
    let tx ← Rpa.parseTransaction unsignedTx
    if tx.1.any (fun input => ¬ input.2.2.isEmpty) then
      .error (.protocol "PSBT unsigned transaction contains a scriptSig")
    else do
      checkCount global globalInputCount tx.1.length
      checkCount global globalOutputCount tx.2.length
      return (unsignedTx, tx)

/- An error of a map names the map. -/
def within (kind : String) (index : Nat) (error : CliError) : CliError :=
  .protocol (kind ++ " " ++ toString index ++ ": " ++ error.toString)

/- `count` input maps, the first of them number `index`. -/
def readInputs (index : Nat) : Nat → Reader CliError (List PsbtInput)
  | 0 => pure []
  | count + 1 => do
      let fields ← (Cursor.readMap inputSingletons).mapError (within "input" index)
      let input ← Reader.lift (inputFromFields index fields)
      let inputs ← readInputs (index + 1) count
      return input :: inputs

/- Output maps are only stepped over. -/
def readOutputs (index : Nat) : Nat → Reader CliError Unit
  | 0 => pure ()
  | count + 1 => do
      let _ ← (Cursor.readMap outputSingletons).mapError (within "output" index)
      readOutputs (index + 1) count

def readMaps : Reader CliError Psbt := do
  let global ← Cursor.readMap globalSingletons
  let (unsignedTx, txInputs, txOutputs) ← Reader.lift (unsignedTransactionOf global)
  let inputs ← readInputs 0 txInputs.length
  readOutputs 0 txOutputs.length
  pure { unsignedTx, inputs, outputCount := txOutputs.length }

/- Everything behind the magic bytes is maps. -/
def parse (raw : List UInt8) : Except CliError Psbt :=
  if raw.length < psbtMagic.length ∨ raw.take psbtMagic.length ≠ psbtMagic then
    .error (.protocol "not a PSBT: the magic bytes are missing")
  else
    match readMaps raw psbtMagic.length with
    | .error error => .error error
    | .ok (psbt, stop) =>
      if stop ≠ raw.length then .error (.protocol "PSBT contains trailing maps or bytes")
      else .ok psbt

--- Checks Before Showing

/-
  The inputs from number `index` on carry a supported type, and the same one as those before.
-/
def checkAgreement (index : Nat) (agreed : Option UInt32) : List PsbtInput → Except CliError Unit
  | [] => .ok ()
  | input :: inputs =>
    match input.sighashType with
    | none => .error
        (.protocol ("input " ++ toString index ++ " carries no sighash type. SeedCash would fall" ++
            " back to 0x41, so the signature might well be" ++
            " right -- but the user would have approved" ++
            " nothing in particular, and a signature coming" ++
            " back is checked against what they approved"))
    | some sighash => do
        (checkSighash sighash).mapError (within "input" index)
        match agreed with
        | none => checkAgreement (index + 1) (some sighash) inputs
        | some first =>
          if first ≠ sighash then
            .error
              (.protocol
                ("input " ++ toString index ++ " asks for sighash " ++ alternateHex sighash ++
                  " while input 0 asks for " ++ alternateHex first ++
                  "; every input commits to the same one"))
          else checkAgreement (index + 1) (some first) inputs

/- What may be displayed to a signer, and on which network. -/
def checkWatchOnly (raw : List UInt8) (network : Network) : Except CliError Psbt :=
  if network ≠ .chipnet then .error (.usage ("the air-gap signing path is chipnet-only. This is" ++
          " refused here rather than left to convention."))
  else do
    let psbt ← parse raw
    if psbt.inputs.isEmpty then .error (.protocol "a PSBT with no inputs cannot be signed")
    else do
      checkAgreement 0 none psbt.inputs
      return psbt

--- What Is To Be Signed

/- A signature that was collected before. -/
structure PartialSignature where
  pubkey : Vector UInt8 33
  signature : List UInt8
deriving DecidableEq

/- The txid is in display order; no sequence is the last. -/
structure PsbtInputSpec where
  txidDisplay : Vector UInt8 32
  vout : UInt32
  sequence : Option UInt32
  satoshis : UInt64
  lockingBytecode : List UInt8
  previousTransaction : Option (List UInt8)
  redeemScript : Option (List UInt8)
  partialSignatures : List PartialSignature
  derivations : List KeyOrigin
deriving DecidableEq

structure PsbtOutputSpec where
  satoshis : UInt64
  lockingBytecode : List UInt8
  redeemScript : Option (List UInt8)
  derivations : List KeyOrigin
  tokenPrefix : Option (List UInt8)
deriving DecidableEq

structure GlobalXpub where
  xpubPayload : List UInt8
  fingerprint : Vector UInt8 4
  path : List UInt32
deriving DecidableEq

--- Records

/- The shortest form, as in transactions. -/
abbrev compactSize (value : UInt64) : List UInt8 := varint value

/- A length and the bytes it counts. -/
def counted (bytes : List UInt8) : List UInt8 := compactSize (UInt64.ofNat bytes.length) ++ bytes

/- A key and a value, each with its length in front. -/
def record (field : RecordMap.Field) : List UInt8 := counted field.1 ++ counted field.2

/- Records up to an empty key. -/
def mapOf (fields : List RecordMap.Field) : List UInt8 := fields.flatMap record ++ [0x00]

/- A fingerprint and the steps of a path behind it. -/
def originValue (fingerprint : Vector UInt8 4) (path : List UInt32) : List UInt8 :=
  fingerprint.toList ++ path.flatMap (fun step => bytesLE step.toNat 4)

/- The origin of a public key, which stands in the key. -/
def originField (kind : UInt8) (origin : KeyOrigin) : RecordMap.Field :=
  (kind :: origin.pubkey.toList, originValue origin.fingerprint origin.path)

/- A record that is only there with its value. -/
def optionalField (kind : UInt8) (value : Option (List UInt8)) : List RecordMap.Field :=
  match value with
  | some value => [([kind], value)]
  | none => []

--- The Unsigned Transaction

def PsbtInputSpec.sequenceOrLast (input : PsbtInputSpec) : UInt32 := input.sequence.getD 0xffffffff

/-
  The outpoint is turned from display order into wire order, and the unlocking script is empty.
-/
def unsignedInput (input : PsbtInputSpec) : List UInt8 :=
  input.txidDisplay.toList.reverse ++ bytesLE input.vout.toNat 4 ++ [0x00] ++
    bytesLE input.sequenceOrLast.toNat 4

def unsignedOutput (output : PsbtOutputSpec) : List UInt8 :=
  bytesLE output.satoshis.toNat 8 ++ counted output.lockingBytecode

variable (inputs : List PsbtInputSpec)

/- Version two, without a locktime. -/
def unsignedTransaction (outputs : List PsbtOutputSpec) : List UInt8 :=
  bytesLE 2 4 ++ compactSize (UInt64.ofNat inputs.length) ++ inputs.flatMap unsignedInput ++
    compactSize (UInt64.ofNat outputs.length) ++ outputs.flatMap unsignedOutput ++ bytesLE 0 4

--- Maps

def psbtVersion145 : UInt64 := 145

def xpubField (xpub : GlobalXpub) : Except CliError RecordMap.Field :=
  if xpub.xpubPayload.length ≠ 78 then
    .error (.usage ("a global xPub payload is 78 bytes, got " ++ toString xpub.xpubPayload.length))
  else .ok (globalXpub :: xpub.xpubPayload, originValue xpub.fingerprint xpub.path)

variable (outputs : List PsbtOutputSpec)

/- The counts make it plain where each section ends. -/
def globalFields (xpubs : List RecordMap.Field) : List RecordMap.Field :=
  [([globalUnsignedTx], unsignedTransaction inputs outputs),
        ([globalVersion], compactSize psbtVersion145)] ++ xpubs ++
    [([globalInputCount], compactSize (UInt64.ofNat inputs.length)),
      ([globalOutputCount], compactSize (UInt64.ofNat outputs.length))]

/- The output being spent, in one form and never in both. -/
def utxoRecord (input : PsbtInputSpec) : RecordMap.Field :=
  match input.previousTransaction with
  | some parent => ([inNonWitnessUtxo], parent)
  | none => ([inWitnessUtxo], bytesLE input.satoshis.toNat 8 ++ counted input.lockingBytecode)

def signatureField (signature : PartialSignature) : RecordMap.Field :=
  (inPartialSig :: signature.pubkey.toList, signature.signature)

/- The txid stands here in display order. -/
def inputFields (sighash : UInt32) (input : PsbtInputSpec) : List RecordMap.Field :=
  [utxoRecord input, ([inSighashType], bytesLE sighash.toNat 4)] ++
    optionalField inRedeemScript input.redeemScript ++ input.partialSignatures.map signatureField ++
    input.derivations.map (originField inBip32Derivation) ++
    [([inPreviousTxid], input.txidDisplay.toList), ([inOutputIndex], bytesLE input.vout.toNat 4),
      ([inSequence], bytesLE input.sequenceOrLast.toNat 4)]

def outputFields (output : PsbtOutputSpec) : List RecordMap.Field :=
  optionalField outRedeemScript output.redeemScript ++
    output.derivations.map (originField outBip32Derivation) ++
    [([outAmount], bytesLE output.satoshis.toNat 8), ([outScript], output.lockingBytecode)] ++
    optionalField outCashtoken output.tokenPrefix

def outputMap (output : PsbtOutputSpec) : List UInt8 := mapOf (outputFields output)

/- The input maps from number `index` on. -/
def inputMaps (sighash : UInt32) (index : Nat) : List PsbtInputSpec → Except CliError (List UInt8)
  | [] => .ok []
  | input :: inputs =>
    if input.derivations.isEmpty then .error
        (.usage ("input " ++ toString index ++ " has no key origin; a signer would not know" ++
            " whether it can sign it"))
    else do
      let maps ← inputMaps sighash (index + 1) inputs
      return mapOf (inputFields sighash input) ++ maps

--- Encoding

/- What was written is parsed before it is handed out. -/
def encodeUnsignedWithSighash (globalXpubs : List GlobalXpub) (sighash : UInt32) :
    Except CliError (List UInt8) := do
  if inputs.isEmpty then .error (.usage "a PSBT needs at least one input")
  else if outputs.isEmpty then .error (.usage "a PSBT needs at least one output")
  else do
    checkSighash sighash
    let xpubs ← globalXpubs.mapM xpubField
    let maps ← inputMaps sighash 0 inputs
    let out :=
      psbtMagic ++ mapOf (globalFields inputs outputs xpubs) ++ maps ++ outputs.flatMap outputMap
    let _ ← parse out
    return out

/- The same with the type every signer agrees on. -/
def encodeUnsigned (globalXpubs : List GlobalXpub) : Except CliError (List UInt8) :=
  encodeUnsignedWithSighash inputs outputs globalXpubs sighashAllForkid

end Psbt

end OptnWallet
