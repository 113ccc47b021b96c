import OptnWallet.Core.Psbt
import OptnWallet.Core.Rpa.Agreement
import OptnWallet.Library.StagedUpdate

/-
  Whatever is written into an envelope is found in it again, and may be shown to a signer on
  chipnet.

  Main declarations:
    * `Psbt.parse_encoded`
    * `Psbt.encodeUnsigned_roundTrip`
-/

--- Maps

namespace OptnWallet

open StagedUpdate ByteFormat
open RecordMap (Field Fits mapBytes)

namespace Psbt

/- A length that fits a machine word. -/
def FitsWord (bytes : List UInt8) : Prop := bytes.length < 2 ^ 64

theorem fitsWord_nil : FitsWord [] := by
  unfold FitsWord
  decide

theorem counted_ne_nil (bytes : List UInt8) : counted bytes ≠ [] := by
  unfold counted compactSize varint
  split_ifs <;> simp

theorem mapOf_eq (fields : List Field) : mapOf fields = mapBytes counted fields := rfl

theorem Cursor.readsAs_recordBytes :
    ReadsAs Cursor.recordBytes (fun value bytes => FitsWord value ∧ bytes = counted value) :=
  readsAs_counted (readsAs_minimalVarint _ _)

variable {bytes : List UInt8} {fields : List Field} {start stop : Nat}

/- The bytes of a map, where they stand, read as its records. -/
theorem Cursor.readMap_of_written {singletonTypes : List UInt8} {found : List Field}
    (hStart : start ≤ bytes.length) (hFits : Fits FitsWord fields)
    (hKeys : ∀ field ∈ fields, field.1 ≠ []) (hPrefix : mapOf fields <+: bytes.drop start)
    (hRead : Cursor.readMap singletonTypes bytes start = .ok (found, stop)) :
    found = fields ∧ stop = start + (mapOf fields).length :=
  RecordMap.readMap_of_written Cursor.readsAs_recordBytes counted_ne_nil fitsWord_nil hStart hFits
    hKeys hPrefix hRead

/- What a short map holds is short. -/
theorem fits_of_mapOf (hLength : (mapOf fields).length < 2 ^ 64) : Fits FitsWord fields := by
  intro field hMem
  have hSub : (record field).Sublist (fields.flatMap record) :=
    List.sublist_flatten_of_mem (List.mem_map_of_mem hMem)
  have hWhole := hSub.length_le
  have hRecord : field.1.length + field.2.length ≤ (record field).length := by
    unfold record counted
    simp only [List.length_append]
    omega
  unfold mapOf at hLength
  rw [List.length_append] at hLength
  unfold FitsWord
  omega

--- Origins

theorem pathSteps_append (step : UInt32) (bytes : List UInt8) :
    pathSteps (bytesLE step.toNat 4 ++ bytes) = step :: pathSteps bytes := by
  have hWord : natOfBytesLE (bytesLE step.toNat 4) = step.toNat :=
    natOfBytesLE_bytesLE step.toNat_lt
  rw [bytesLE_succ, bytesLE_succ, bytesLE_succ, bytesLE_succ] at hWord ⊢
  change UInt32.ofNat (natOfBytesLE (_ :: _ :: _ :: _ :: [])) :: pathSteps bytes = _
  exact congrArg (· :: pathSteps bytes) ((congrArg UInt32.ofNat hWord).trans UInt32.ofNat_toNat)

theorem pathSteps_flatMap (path : List UInt32) :
    pathSteps (path.flatMap (fun step => bytesLE step.toNat 4)) = path := by
  induction path with
  | nil => rfl
  | cons step path ih => rw [List.flatMap_cons, pathSteps_append, ih]

theorem length_path (path : List UInt32) :
    (path.flatMap (fun step => bytesLE step.toNat 4)).length = 4 * path.length := by
  induction path with
  | nil => rfl
  | cons step path ih =>
    rw [List.flatMap_cons, List.length_append, ih, length_bytesLE, List.length_cons]
    omega

/- An origin's record spells the origin. -/
theorem keyOrigin_originField (index : Nat) (kind : UInt8) (origin : KeyOrigin) :
    keyOrigin index (originField kind origin).1 (originField kind origin).2 = .ok origin := by
  have hLength :
      (originValue origin.fingerprint origin.path).length = 4 + 4 * origin.path.length := by
    unfold originValue
    rw [List.length_append, Vector.length_toList, length_path]
  have hSteps :
      ¬ ((originValue origin.fingerprint origin.path).length < 4 ∨
          ((originValue origin.fingerprint origin.path).length - 4) % 4 ≠ 0) := by
    omega
  have hFingerprint :
      (originValue origin.fingerprint origin.path).take 4 = origin.fingerprint.toList := by
    unfold originValue
    exact List.take_left' Vector.length_toList
  have hPath : pathSteps ((originValue origin.fingerprint origin.path).drop 4) = origin.path := by
    unfold originValue
    rw [List.drop_left' Vector.length_toList, pathSteps_flatMap]
  have hPubkey : ((kind :: origin.pubkey.toList).drop 1).length = 33 := Vector.length_toList
  unfold keyOrigin originField
  dsimp only
  rw [dif_pos hPubkey, dif_neg hSteps]
  congr 1
  rcases origin with ⟨pubkey, fingerprint, path⟩
  rw [KeyOrigin.mk.injEq]
  refine ⟨rfl, ?_, hPath⟩
  apply Vector.toList_inj.mp
  exact hFingerprint

--- Input Maps

/- What an input is parsed to. -/
def PsbtInputSpec.parsed (sighash : UInt32) (input : PsbtInputSpec) : PsbtInput :=
  { sighashType := some sighash
    utxo :=
      if input.previousTransaction.isSome then some .nonWitness
      else some .witness
    origins := input.derivations }

/- The types of the records that parsing takes note of. -/
def notedTypes : List UInt8 := [inNonWitnessUtxo, inWitnessUtxo, inSighashType, inBip32Derivation]

theorem utxoField_cons_of_unnoted {kind : UInt8} (hKind : kind ∉ notedTypes) (data : List UInt8) :
    utxoField (kind :: data) = none := by
  have hNonWitness : kind :: data ≠ [inNonWitnessUtxo] := by
    intro hSame
    rw [(List.cons.inj hSame).1] at hKind
    exact hKind (by decide)
  have hWitness : kind :: data ≠ [inWitnessUtxo] := by
    intro hSame
    rw [(List.cons.inj hSame).1] at hKind
    exact hKind (by decide)
  unfold utxoField
  rw [if_neg hNonWitness, if_neg hWitness]

theorem noteField_of_unnoted {kind : UInt8} (hKind : kind ∉ notedTypes) (index : Nat)
    (input : PsbtInput) (data value : List UInt8) :
    noteField index input (kind :: data, value) = .ok input := by
  have hSighash : some kind ≠ some inSighashType := by
    intro hSame
    rw [Option.some.inj hSame] at hKind
    exact hKind (by decide)
  have hOrigin : some kind ≠ some inBip32Derivation := by
    intro hSame
    rw [Option.some.inj hSame] at hKind
    exact hKind (by decide)
  unfold noteField noteUtxo
  dsimp only
  rw [utxoField_cons_of_unnoted hKind]
  change
    (if some kind = some inSighashType then _
      else if some kind = some inBip32Derivation then _
      else _) =
      _
  rw [if_neg hSighash, if_neg hOrigin]

variable {index : Nat}

theorem foldlM_unnoted
    (hFields : ∀ field ∈ fields, ∃ kind data value,
      field = (kind :: data, value) ∧ kind ∉ notedTypes) (input : PsbtInput) :
    fields.foldlM (noteField index) input = .ok input := by
  induction fields with
  | nil => rfl
  | cons field fields ih =>
    rw [List.forall_mem_cons] at hFields
    rcases hFields with ⟨⟨kind, data, value, rfl, hKind⟩, hRest⟩
    rw [List.foldlM_cons, noteField_of_unnoted hKind]
    exact ih hRest

/- The origins are taken in order. -/
theorem foldlM_origins (origins : List KeyOrigin) (input : PsbtInput) :
    (origins.map (originField inBip32Derivation)).foldlM (noteField index) input =
      .ok { input with origins := input.origins ++ origins } := by
  induction origins generalizing input with
  | nil =>
    rw [List.append_nil]
    rfl
  | cons origin origins ih =>
    have hNote :
        noteField index input (originField inBip32Derivation origin) = .ok
            { input with
              origins := input.origins ++ [origin] } := by
      unfold noteField
      rw [keyOrigin_originField]
      rfl
    rw [List.map_cons, List.foldlM_cons, hNote]
    refine (ih _).trans ?_
    rw [List.append_assoc]
    rfl

section

variable (index : Nat)

theorem noteField_utxoRecord (input : PsbtInputSpec) :
    noteField index {} (utxoRecord input) = .ok
        { utxo :=
            if input.previousTransaction.isSome then some .nonWitness
            else some .witness } := by
  unfold utxoRecord
  cases input.previousTransaction with
  | none => rfl
  | some parent => rfl

theorem noteField_sighash (sighash : UInt32) (utxo : Option UtxoField) :
    noteField index { utxo } ([inSighashType], bytesLE sighash.toNat 4) =
      .ok { utxo, sighashType := some sighash } := by
  unfold noteField
  dsimp only
  rw [length_bytesLE, natOfBytesLE_bytesLE sighash.toNat_lt, UInt32.ofNat_toNat]
  rfl

theorem foldlM_optionalField (value : Option (List UInt8)) (input : PsbtInput) :
    (optionalField inRedeemScript value).foldlM (noteField index) input = .ok input := by
  apply foldlM_unnoted
  intro field hMem
  unfold optionalField at hMem
  cases value with
  | none => cases hMem
  | some value =>
    cases List.mem_singleton.mp hMem
    exact ⟨inRedeemScript, [], value, rfl, by decide⟩

theorem foldlM_signatures (signatures : List PartialSignature) (input : PsbtInput) :
    (signatures.map signatureField).foldlM (noteField index) input = .ok input := by
  apply foldlM_unnoted
  intro field hMem
  rcases List.mem_map.mp hMem with ⟨signature, -, rfl⟩
  exact ⟨inPartialSig, _, _, rfl, by decide⟩

/- The map of an input parses to what it was written from. -/
theorem inputFromFields_inputFields (sighash : UInt32) (input : PsbtInputSpec) :
    inputFromFields index (inputFields sighash input) = .ok (input.parsed sighash) := by
  have hFront :
      [utxoRecord input, ([inSighashType], bytesLE sighash.toNat 4)].foldlM (noteField index) {} =
        .ok
          { utxo :=
              if input.previousTransaction.isSome then some .nonWitness
              else some .witness
            sighashType := some sighash } := by
    rw [List.foldlM_cons, noteField_utxoRecord, bind_of_ok rfl, List.foldlM_cons, noteField_sighash]
    rfl
  have hBack :
      [([inPreviousTxid], input.txidDisplay.toList), ([inOutputIndex], bytesLE input.vout.toNat 4),
            ([inSequence], bytesLE input.sequenceOrLast.toNat 4)].foldlM (noteField index)
          (input.parsed sighash) = .ok (input.parsed sighash) := by
    apply foldlM_unnoted
    simp only [List.forall_mem_cons]
    exact ⟨⟨inPreviousTxid, [], _, rfl, by decide⟩, ⟨inOutputIndex, [], _, rfl, by decide⟩,
        ⟨inSequence, [], _, rfl, by decide⟩, fun _ hMem => absurd hMem List.not_mem_nil⟩
  unfold inputFromFields inputFields
  simp only [foldlM_append_eq_ok_iff]
  exact ⟨_,
    ⟨_, ⟨_, ⟨_, hFront, foldlM_optionalField _ _ _⟩, foldlM_signatures _ _ _⟩, foldlM_origins _ _⟩,
    hBack⟩

end

theorem inputFields_keys_ne_nil (sighash : UInt32) (input : PsbtInputSpec) :
    ∀ field ∈ inputFields sighash input, field.1 ≠ [] := by
  intro field hMem
  unfold inputFields at hMem
  simp only [List.mem_append, List.mem_cons, List.not_mem_nil, or_false, List.mem_map] at hMem
  rcases hMem with (((((rfl | rfl) | hMem) | ⟨_, -, rfl⟩) | ⟨_, -, rfl⟩) | rfl | rfl | rfl)
  · unfold utxoRecord
    cases input.previousTransaction with
    | none => exact List.cons_ne_nil _ _
    | some parent => exact List.cons_ne_nil _ _
  · exact List.cons_ne_nil _ _
  · unfold optionalField at hMem
    cases hScript : input.redeemScript with
    | none =>
      rw [hScript] at hMem
      cases hMem
    | some script =>
      rw [hScript] at hMem
      cases List.mem_singleton.mp hMem
      exact List.cons_ne_nil _ _
  · exact List.cons_ne_nil _ _
  · exact List.cons_ne_nil _ _
  · exact List.cons_ne_nil _ _
  · exact List.cons_ne_nil _ _
  · exact List.cons_ne_nil _ _

/- A map that stands in short bytes is short. -/
theorem fits_of_written (hSize : FitsWord bytes) (hPrefix : mapOf fields <+: bytes.drop start) :
    Fits FitsWord fields := by
  apply fits_of_mapOf
  have hLength := hPrefix.length_le
  rw [List.length_drop] at hLength
  unfold FitsWord at hSize
  omega

variable {sighash : UInt32} {inputs : List PsbtInputSpec}

/-
  Where the maps of inputs stand, they are read as the inputs. By induction over the inputs, each
  map behind the one before.
-/
theorem readInputs_of_written {found : List PsbtInput} (hSize : FitsWord bytes)
    (hStart : start ≤ bytes.length)
    (hPrefix : inputs.flatMap (fun input => mapOf (inputFields sighash input)) <+: bytes.drop start)
    (hRead : readInputs index inputs.length bytes start = .ok (found, stop)) :
    found = inputs.map (PsbtInputSpec.parsed sighash) := by
  induction inputs generalizing index start stop found with
  | nil => exact (Reader.pure_eq_ok_iff.mp hRead).1
  | cons input inputs ih =>
    rw [List.flatMap_cons] at hPrefix
    have hHere := (List.prefix_append _ _).trans hPrefix
    unfold readInputs at hRead
    rcases Reader.bind_eq_ok_iff.mp hRead with ⟨fields, middle, hFields, hRest⟩
    rcases Cursor.readMap_of_written hStart (fits_of_written hSize hHere)
      (inputFields_keys_ne_nil sighash input) hHere (Reader.mapError_eq_ok_iff.mp hFields) with
      ⟨rfl, rfl⟩
    rw [inputFromFields_inputFields] at hRest
    rcases Reader.bind_eq_ok_iff.mp hRest with ⟨parsed, next, hParsed, hTail⟩
    rcases Reader.lift_eq_ok_iff.mp hParsed with ⟨hOk, rfl⟩
    cases hOk
    rcases Reader.bind_eq_ok_iff.mp hTail with ⟨rest, last, hOthers, hFound⟩
    rw [(Reader.pure_eq_ok_iff.mp hFound).1,
      ih (add_length_le_of_isPrefixOf_drop hStart hHere) (isPrefixOf_drop_append hPrefix) hOthers,
      List.map_cons]

--- The Unsigned Transaction

def PsbtInputSpec.raw (input : PsbtInputSpec) : RawInput :=
  { txid := input.txidDisplay.reverse
    vout := input.vout
    scriptSig := []
    sequence := input.sequenceOrLast }

def PsbtOutputSpec.raw (output : PsbtOutputSpec) : RawOutput :=
  { value := output.satoshis, field := output.lockingBytecode }

def unsignedRaw (inputs : List PsbtInputSpec) (outputs : List PsbtOutputSpec) : RawTransaction :=
  { version := 2
    inputs := inputs.map PsbtInputSpec.raw
    outputs := outputs.map PsbtOutputSpec.raw
    locktime := 0 }

theorem unsignedInput_eq : unsignedInput = RawInput.bytes ∘ PsbtInputSpec.raw := by
  funext input
  unfold unsignedInput Function.comp RawInput.bytes PsbtInputSpec.raw
  dsimp only
  rw [Vector.toList_reverse]
  simp only [List.append_assoc]
  rfl

theorem unsignedTransaction_eq (inputs : List PsbtInputSpec) (outputs : List PsbtOutputSpec) :
    unsignedTransaction inputs outputs = (unsignedRaw inputs outputs).bytes := by
  unfold unsignedTransaction unsignedRaw RawTransaction.bytes
  dsimp only
  rw [List.length_map, List.length_map, List.flatMap_map, List.flatMap_map, unsignedInput_eq]
  simp only [List.append_assoc]
  rfl

/- A list of nonempty pieces is no longer than the pieces. -/
theorem length_le_length_flatMap {α : Type} {bytesOf : α → List UInt8}
    (hBytes : ∀ value, bytesOf value ≠ []) (values : List α) :
    values.length ≤ (values.flatMap bytesOf).length := by
  induction values with
  | nil => exact Nat.le_refl 0
  | cons value values ih =>
    have hSome := List.length_pos_iff.mpr (hBytes value)
    rw [List.flatMap_cons, List.length_append, List.length_cons]
    omega

variable {outputs : List PsbtOutputSpec} (hSize : FitsWord (unsignedTransaction inputs outputs))

include hSize in
theorem unsignedRaw_inRange : (unsignedRaw inputs outputs).InRange := by
  have hParts :
      (inputs.flatMap unsignedInput).length + (outputs.flatMap unsignedOutput).length ≤
        (unsignedTransaction inputs outputs).length := by
    unfold unsignedTransaction
    simp only [List.length_append]
    omega
  have hInputs : inputs.length ≤ (inputs.flatMap unsignedInput).length := by
    apply length_le_length_flatMap
    intro input
    unfold unsignedInput
    simp
  have hOutputs : outputs.length ≤ (outputs.flatMap unsignedOutput).length := by
    apply length_le_length_flatMap
    intro output
    unfold unsignedOutput
    simp [counted_ne_nil]
  unfold FitsWord at hSize
  constructor
  · change (inputs.map PsbtInputSpec.raw).length < 2 ^ 64
    rw [List.length_map]
    omega
  · intro raw hMem
    rcases List.mem_map.mp hMem with ⟨input, -, rfl⟩
    exact fitsWord_nil
  · change (outputs.map PsbtOutputSpec.raw).length < 2 ^ 64
    rw [List.length_map]
    omega
  · intro raw hMem
    rcases List.mem_map.mp hMem with ⟨output, hOutput, rfl⟩
    have hSub : (unsignedOutput output).Sublist (outputs.flatMap unsignedOutput) :=
      List.sublist_flatten_of_mem (List.mem_map_of_mem hOutput)
    have hWhole := hSub.length_le
    have hField : output.lockingBytecode.length ≤ (unsignedOutput output).length := by
      unfold unsignedOutput counted
      simp only [List.length_append]
      omega
    change output.lockingBytecode.length < 2 ^ 64
    omega

/- The outpoints and outputs come out as they were given. -/
include hSize in
theorem parseTransaction_unsigned :
    Rpa.parseTransaction (unsignedTransaction inputs outputs) = .ok
        (inputs.map (fun input => (hexString input.txidDisplay.toList, input.vout, [])),
          outputs.map (fun output => (output.satoshis, output.lockingBytecode))) := by
  apply Rpa.parseTransaction_eq_ok_iff.mpr
  refine ⟨_, unsignedRaw_inRange hSize, ?_, ?_, unsignedTransaction_eq inputs outputs⟩
  · unfold unsignedRaw
    dsimp only
    rw [List.map_map]
    apply List.map_congr_left
    intro input _
    unfold Function.comp RawInput.parsed PsbtInputSpec.raw
    dsimp only
    rw [Vector.toList_reverse, List.reverse_reverse]
  · unfold unsignedRaw
    dsimp only
    rw [List.map_map]
    rfl

section

variable (inputs : List PsbtInputSpec) (outputs : List PsbtOutputSpec)

/- What is read back of a spend. -/
def recovered (sighash : UInt32) : Psbt :=
  { unsignedTx := unsignedTransaction inputs outputs
    inputs := inputs.map (PsbtInputSpec.parsed sighash)
    outputCount := outputs.length }

theorem lookup_globalFields
    (xpubs : List Field) :
    lookup globalUnsignedTx (globalFields inputs outputs xpubs) =
      some (unsignedTransaction inputs outputs) := rfl

end

variable {xpubs : List Field}

/- Where the unsigned transaction is taken at all, it is the one that was written. -/
include hSize in
theorem unsignedTransactionOf_globalFields {found : List UInt8 × Rpa.ParsedTransaction}
    (hFound : unsignedTransactionOf (globalFields inputs outputs xpubs) = .ok found) :
    found.1 = unsignedTransaction inputs outputs ∧
    found.2.1.length = inputs.length ∧
    found.2.2.length = outputs.length := by
  unfold unsignedTransactionOf at hFound
  rw [lookup_globalFields] at hFound
  dsimp only at hFound
  rw [bind_of_ok (parseTransaction_unsigned hSize)] at hFound
  split at hFound
  · cases hFound
  · rcases bind_eq_ok_iff.mp hFound with ⟨-, -, hFound⟩
    rcases bind_eq_ok_iff.mp hFound with ⟨-, -, hFound⟩
    cases hFound
    exact ⟨rfl, List.length_map _, List.length_map _⟩

--- Whole Envelopes

variable {psbt : Psbt}

/- Parsing starts behind the magic bytes and ends with the bytes. -/
theorem parse_eq_ok_iff {raw : List UInt8} :
    parse raw = .ok psbt ↔
    psbtMagic <+: raw ∧ readMaps raw psbtMagic.length = .ok (psbt, raw.length) := by
  have hMagic :
      psbtMagic <+: raw ↔
      ¬ (raw.length < psbtMagic.length ∨ raw.take psbtMagic.length ≠ psbtMagic) := by
    rw [List.prefix_iff_eq_take]
    constructor
    · intro hTake
      rw [not_or, not_not]
      refine ⟨?_, hTake.symm⟩
      have hLength := congrArg List.length hTake
      rw [List.length_take] at hLength
      omega
    · intro hNot
      rw [not_or, not_not] at hNot
      exact hNot.2.symm
  rw [hMagic]
  unfold parse
  split
  · rename_i hBad
    exact iff_of_false (fun hError => by cases hError) (fun hGood => hGood.1 hBad)
  · rename_i hGood
    cases readMaps raw psbtMagic.length with
    | error error => simp [hGood]
    | ok found =>
      rcases found with ⟨psbt', stop⟩
      dsimp only
      split
      · rename_i hStop
        simp [hStop]
      · rename_i hStop
        rw [not_not] at hStop
        simp [hGood, hStop]

theorem inputMaps_eq {maps : List UInt8} (hMaps : inputMaps sighash index inputs = .ok maps) :
    maps = inputs.flatMap (fun input => mapOf (inputFields sighash input)) := by
  induction inputs generalizing index maps with
  | nil =>
    cases hMaps
    rfl
  | cons input inputs ih =>
    unfold inputMaps at hMaps
    split at hMaps
    · cases hMaps
    · rcases bind_eq_ok_iff.mp hMaps with ⟨rest, hRest, hMaps⟩
      cases hMaps
      rw [List.flatMap_cons, ih hRest]

variable {globalXpubs : List GlobalXpub}

theorem globalFields_keys_ne_nil (hXpubs : globalXpubs.mapM xpubField = .ok xpubs) :
    ∀ field ∈ globalFields inputs outputs xpubs, field.1 ≠ [] := by
  intro field hMem
  unfold globalFields at hMem
  simp only [List.mem_append, List.mem_cons, List.not_mem_nil, or_false] at hMem
  rcases hMem with ((rfl | rfl) | hMem) | rfl | rfl
  · exact List.cons_ne_nil _ _
  · exact List.cons_ne_nil _ _
  · rcases (mem_of_mapM hXpubs).mp hMem with ⟨xpub, -, hField⟩
    unfold xpubField at hField
    split at hField
    · cases hField
    · cases hField
      exact List.cons_ne_nil _ _
  · exact List.cons_ne_nil _ _
  · exact List.cons_ne_nil _ _

/- Where the maps of a spend stand, they are read as the spend. -/
theorem readMaps_of_written (hXpubs : globalXpubs.mapM xpubField = .ok xpubs)
    (hSize : FitsWord bytes) (hStart : start ≤ bytes.length)
    (hPrefix :
      mapOf (globalFields inputs outputs xpubs) ++
          inputs.flatMap (fun input => mapOf (inputFields sighash input)) <+: bytes.drop start)
    (hRead : readMaps bytes start = .ok (psbt, stop)) :
    psbt = recovered inputs outputs sighash := by
  have hHere := (List.prefix_append _ _).trans hPrefix
  have hFits := fits_of_written hSize hHere
  have hUnsigned : FitsWord (unsignedTransaction inputs outputs) := (hFits _ List.mem_cons_self).2
  unfold readMaps at hRead
  rcases Reader.bind_eq_ok_iff.mp hRead with ⟨global, middle, hGlobal, hRest⟩
  rcases Cursor.readMap_of_written hStart hFits (globalFields_keys_ne_nil hXpubs) hHere hGlobal with
    ⟨rfl, rfl⟩
  rcases Reader.bind_eq_ok_iff.mp hRest with ⟨⟨unsignedTx, txInputs, txOutputs⟩, next, hLift, hMaps⟩
  rcases Reader.lift_eq_ok_iff.mp hLift with ⟨hFound, rfl⟩
  rcases unsignedTransactionOf_globalFields hUnsigned hFound with ⟨hTx, hInputCount, hOutputCount⟩
  dsimp only at hTx hInputCount hOutputCount hMaps
  rw [hTx, hInputCount, hOutputCount] at hMaps
  rcases Reader.bind_eq_ok_iff.mp hMaps with ⟨parsed, last, hParsed, hOutputs⟩
  rw [readInputs_of_written hSize (add_length_le_of_isPrefixOf_drop hStart hHere)
    (isPrefixOf_drop_append hPrefix) hParsed] at hOutputs
  rcases Reader.bind_eq_ok_iff.mp hOutputs with ⟨_, _, -, hPsbt⟩
  exact (Reader.pure_eq_ok_iff.mp hPsbt).1

/- What encoding accepts is parsed to what it recovers. -/
theorem parse_encoded {out : List UInt8}
    (hEncode : encodeUnsignedWithSighash inputs outputs globalXpubs sighash = .ok out)
    (hSize : FitsWord out) :
    inputs ≠ [] ∧
    checkSighash sighash = .ok () ∧
    parse out = .ok (recovered inputs outputs sighash) := by
  unfold encodeUnsignedWithSighash at hEncode
  split at hEncode
  · cases hEncode
  · rename_i hInputs
    split at hEncode
    · cases hEncode
    · rcases bind_eq_ok_iff.mp hEncode with ⟨_, hSighash, hEncode⟩
      rcases bind_eq_ok_iff.mp hEncode with ⟨xpubs, hXpubs, hEncode⟩
      rcases bind_eq_ok_iff.mp hEncode with ⟨maps, hMaps, hEncode⟩
      rcases bind_eq_ok_iff.mp hEncode with ⟨psbt, hParse, hOut⟩
      rw [inputMaps_eq hMaps] at hParse hOut
      cases hOut
      refine ⟨?_, hSighash, ?_⟩
      · rw [List.isEmpty_iff] at hInputs
        exact hInputs
      · have hRead := (parse_eq_ok_iff.mp hParse).2
        rw [hParse, readMaps_of_written hXpubs hSize ?_ ?_ hRead]
        · simp only [List.length_append]
          omega
        · rw [List.append_assoc, List.append_assoc, List.drop_left, ← List.append_assoc]
          exact List.prefix_append _ _

/- One type on every input is agreed on. -/
theorem checkAgreement_parsed (hSighash : checkSighash sighash = .ok ()) (index : Nat)
    {agreed : Option UInt32} (hAgreed : ∀ first, agreed = some first → first = sighash)
    (inputs : List PsbtInputSpec) :
    checkAgreement index agreed (inputs.map (PsbtInputSpec.parsed sighash)) = .ok () := by
  induction inputs generalizing index agreed with
  | nil => rfl
  | cons input inputs ih =>
    rw [List.map_cons]
    unfold checkAgreement
    change ((checkSighash sighash).mapError _ >>= fun _ => _) = _
    rw [bind_of_ok (mapError_eq_ok_iff.mpr hSighash)]
    cases agreed with
    | none =>
      apply ih
      intro first hFirst
      exact (Option.some.inj hFirst).symm
    | some first =>
      cases hAgreed first rfl
      dsimp only
      rw [if_neg (fun hNe => hNe rfl)]
      exact ih (index + 1) hAgreed

theorem checkWatchOnly_eq_ok_iff {raw : List UInt8} {network : Network} :
    checkWatchOnly raw network = .ok psbt ↔
    network = .chipnet ∧
      parse raw = .ok psbt ∧
      psbt.inputs ≠ [] ∧
      checkAgreement 0 none psbt.inputs = .ok () := by
  unfold checkWatchOnly
  split
  · rename_i hNetwork
    exact iff_of_false (fun hError => by cases hError) (fun hGood => hNetwork hGood.1)
  · rename_i hNetwork
    rw [not_not] at hNetwork
    rw [bind_eq_ok_iff]
    constructor
    · rintro ⟨found, hParse, hCheck⟩
      split at hCheck
      · cases hCheck
      · rename_i hInputs
        rcases bind_eq_ok_iff.mp hCheck with ⟨_, hAgree, hFound⟩
        cases hFound
        rw [List.isEmpty_iff] at hInputs
        exact ⟨hNetwork, hParse, hInputs, hAgree⟩
    · rintro ⟨-, hParse, hInputs, hAgree⟩
      refine ⟨psbt, hParse, ?_⟩
      rw [if_neg (by rwa [List.isEmpty_iff]), hAgree]
      rfl

/-
  A spend that encoding accepts is parsed to itself: the same unsigned transaction, inputs and
  outputs in number and order, the type, the form of the output spent and the origins of each
  input.  Such an envelope may be shown on chipnet and on no other network.
-/
theorem encodeUnsigned_roundTrip (inputs : List PsbtInputSpec) (outputs : List PsbtOutputSpec)
    (globalXpubs : List GlobalXpub) (sighash : UInt32) (out : List UInt8)
    (hEncode : encodeUnsignedWithSighash inputs outputs globalXpubs sighash = .ok out)
    (hSize : FitsWord out) :
    parse out = .ok (recovered inputs outputs sighash) ∧
    ∀ network,
      checkWatchOnly out network = .ok (recovered inputs outputs sighash) ↔ network = .chipnet := by
  rcases parse_encoded hEncode hSize with ⟨hInputs, hSighash, hParse⟩
  refine ⟨hParse, fun network => ?_⟩
  rw [checkWatchOnly_eq_ok_iff]
  constructor
  · intro hAccepted
    exact hAccepted.1
  · intro hNetwork
    refine ⟨hNetwork, hParse, ?_, ?_⟩
    · intro hNil
      exact hInputs (List.map_eq_nil_iff.mp hNil)
    · apply checkAgreement_parsed hSighash
      intro first hFirst
      cases hFirst

--- A Spend Of Two Cosigners

def sampleOrigin (byte : UInt8) : KeyOrigin :=
  { pubkey := Vector.replicate 33 byte
    fingerprint := Vector.replicate 4 0
    path := [0x8000002c, 0x80000001, 0, 7] }

/- One input comes with its parent and a signature, the other with the output that it spends. -/
def sampleInputs : List PsbtInputSpec :=
  [{ txidDisplay := Vector.replicate 32 9
     vout := 1
     sequence := some 0xfffffffe
     satoshis := 70000
     lockingBytecode := [0xa9, 0x14]
     previousTransaction := some [1, 2, 3]
     redeemScript := some [0x52, 0xae]
     partialSignatures := [{ pubkey := Vector.replicate 33 2, signature := [0x30, 0x41] }]
     derivations := [sampleOrigin 3, sampleOrigin 2] },
    { txidDisplay := Vector.replicate 32 8
      vout := 0
      sequence := none
      satoshis := 50000
      lockingBytecode := [0x51]
      previousTransaction := none
      redeemScript := none
      partialSignatures := []
      derivations := [sampleOrigin 2] }]

def sampleOutputs : List PsbtOutputSpec :=
  [{ satoshis := 110000
     lockingBytecode := [0x52]
     redeemScript := none
     derivations := [sampleOrigin 4]
     tokenPrefix := some [0xef] }]

def sampleXpubs : List GlobalXpub :=
  [{ xpubPayload := List.replicate 78 5
     fingerprint := Vector.replicate 4 0
     path := [0x8000002c] }]

def sampleBytes : List UInt8 :=
  psbtMagic ++ mapOf
      (globalFields sampleInputs sampleOutputs
        [(globalXpub :: List.replicate 78 5, originValue (Vector.replicate 4 0) [0x8000002c])]) ++
    sampleInputs.flatMap (fun input => mapOf (inputFields 0x41 input)) ++
    sampleOutputs.flatMap outputMap

theorem encode_sample :
    encodeUnsignedWithSighash sampleInputs sampleOutputs sampleXpubs 0x41 = .ok sampleBytes := by
  decide +kernel

theorem sampleBytes_fitsWord : FitsWord sampleBytes := by
  unfold FitsWord
  decide +kernel

theorem encodeUnsigned_roundTrip_sample :
    parse sampleBytes = .ok (recovered sampleInputs sampleOutputs 0x41) ∧
    ∀ network,
      checkWatchOnly sampleBytes network = .ok (recovered sampleInputs sampleOutputs 0x41) ↔
        network = .chipnet :=
  encodeUnsigned_roundTrip sampleInputs sampleOutputs sampleXpubs 0x41 sampleBytes encode_sample
    sampleBytes_fitsWord

/- What encoding accepts is not accepted for every network. -/
theorem mainnet_is_refused :
    ¬ ∀ inputs outputs globalXpubs sighash out, encodeUnsignedWithSighash inputs outputs globalXpubs
      sighash = .ok out → ∀ network, ∃ psbt, checkWatchOnly out network = .ok psbt := by
  intro hAll
  rcases hAll _ _ _ _ _ encode_sample .mainnet with ⟨psbt, hAccepted⟩
  have hNetwork := (checkWatchOnly_eq_ok_iff.mp hAccepted).1
  cases hNetwork

end Psbt

end OptnWallet
