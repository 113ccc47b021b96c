import OptnWallet.Core.Psbt.Indexed
import OptnWallet.Library.ByteFormat.Spelling

/-
  What a file is that is parsed as an envelope: maps without a key that occurs twice, as many as
  the unsigned transaction has inputs and outputs, every length of them and of the transaction in
  its shortest form, and no byte behind them.

  Main declarations:
    * `Envelope` and `Envelope.bytes`
    * `Envelope.Strict`
    * `Psbt.exists_envelope`
    * `Psbt.parse_strict`
    * `Psbt.parent_sizes_unchecked`
-/

--- Envelopes

namespace OptnWallet

open StagedUpdate ByteFormat
open RecordMap (Field Fits Passes)

/- The records of a file, map by map. -/
structure Envelope where
  global : List Field
  inputs : List (List Field)
  outputs : List (List Field)

namespace Envelope

open Psbt

/- The maps, whose lengths are in the shortest form. -/
def bytes (envelope : Envelope) : List UInt8 :=
  psbtMagic ++
    (mapOf envelope.global ++ (envelope.inputs.flatMap mapOf ++ envelope.outputs.flatMap mapOf))

def maps (envelope : Envelope) : List (List Field) :=
  envelope.global :: (envelope.inputs ++ envelope.outputs)

/- No key occurs twice, and every key starts with a type in the shortest form. -/
structure StrictMap (fields : List Field) : Prop where
  keys : (fields.map Prod.fst).Nodup
  types : ∀ field ∈ fields, ∃ kind data, field.1 = varint kind ++ data

/- The unsigned transaction of an envelope, and what the maps have to be for it. -/
structure Strict (envelope : Envelope) (tx : RawTransaction) : Prop where
  maps : ∀ fields ∈ envelope.maps, StrictMap fields
  unsigned : ([globalUnsignedTx], tx.bytes) ∈ envelope.global
  inRange : tx.InRange
  unlocked : ∀ input ∈ tx.inputs, input.scriptSig = []
  inputs : envelope.inputs.length = tx.inputs.length
  outputs : envelope.outputs.length = tx.outputs.length
  inputCount :
    ∀ value,
    ([globalInputCount], value) ∈ envelope.global → value = varint (UInt64.ofNat tx.inputs.length)
  outputCount :
    ∀ value,
    ([globalOutputCount], value) ∈ envelope.global → value = varint (UInt64.ofNat tx.outputs.length)

end Envelope

namespace Psbt

open Envelope (StrictMap)

--- Maps

theorem readsAs_compactSize_psbt :
    ReadsAs Cursor.compactSize (fun value bytes => bytes = varint value) :=
  readsAs_minimalVarint _ _

/- What passes the check of a key. -/
theorem checkKey_eq_ok {singletonTypes key : List UInt8} {keys : List (List UInt8)}
    (hCheck : Cursor.checkKey singletonTypes keys key = .ok ()) :
    (∃ kind data, key = varint kind ++ data) ∧
    (key.headD 0 ∈ singletonTypes → key.length = 1) ∧
    key ∉ keys := by
  unfold Cursor.checkKey at hCheck
  cases hType : Cursor.compactSize key 0 with
  | error error =>
    rw [hType] at hCheck
    cases hCheck
  | ok found =>
    rcases found with ⟨kind, stop⟩
    rcases (readsAs_compactSize_psbt key 0 kind stop (Nat.zero_le _)).mp hType with
      ⟨piece, ⟨data, hData⟩, rfl, -⟩
    rw [hType] at hCheck
    dsimp only at hCheck
    split at hCheck
    · cases hCheck
    · rename_i hSingle
      split at hCheck
      · cases hCheck
      · rename_i hFresh
        refine ⟨⟨kind, data, hData.symm⟩, ?_, ?_⟩
        · intro hMem
          rw [not_and, not_imp_not] at hSingle
          exact hSingle (List.contains_iff_mem.mpr hMem)
        · intro hMem
          exact hFresh (List.contains_iff_mem.mpr hMem)

variable {fields : List Field}

/- By induction over the records: each key is new among those before it. -/
theorem strictMap_of_passes {singletonTypes : List UInt8} {before : List Field}
    (hPasses : Passes (Cursor.checkKey singletonTypes) before fields)
    (hBefore : (before.map Prod.fst).Nodup) :
    ((before ++ fields).map Prod.fst).Nodup ∧
    ∀ field ∈ fields,
      (∃ kind data, field.1 = varint kind ++ data) ∧
        (field.1.headD 0 ∈ singletonTypes → field.1.length = 1) := by
  induction fields generalizing before with
  | nil =>
    rw [List.append_nil]
    exact ⟨hBefore, List.forall_mem_nil _⟩
  | cons field fields ih =>
    rcases hPasses with ⟨-, hCheck, hRest⟩
    rcases checkKey_eq_ok hCheck with ⟨hType, hSingle, hFresh⟩
    have hNext : ((before ++ [field]).map Prod.fst).Nodup := by
      rw [List.map_append, List.nodup_append]
      refine ⟨hBefore, List.nodup_singleton _, ?_⟩
      intro key hKey other hOther
      rw [List.map_singleton, List.mem_singleton] at hOther
      rintro rfl
      rw [hOther] at hKey
      exact hFresh hKey
    rcases ih hRest hNext with ⟨hNodup, hFields⟩
    rw [List.append_assoc, List.singleton_append] at hNodup
    exact ⟨hNodup, List.forall_mem_cons.mpr ⟨⟨hType, hSingle⟩, hFields⟩⟩

/- What a map is that was read. -/
structure ReadMap (singletonTypes : List UInt8) (fields : List Field) : Prop where
  strict : StrictMap fields
  single : ∀ field ∈ fields, field.1.headD 0 ∈ singletonTypes → field.1.length = 1

theorem readsOnly_readMap (singletonTypes : List UInt8) :
    ReadsOnly (Cursor.readMap singletonTypes)
      (fun fields bytes => ReadMap singletonTypes fields ∧ bytes = mapOf fields) := by
  apply (ReadsOnly.of_readsAs
    (RecordMap.readsAs_readMap Cursor.readsAs_recordBytes counted_ne_nil fitsWord_nil)).imp
  rintro fields bytes ⟨-, hPasses, rfl⟩
  rcases strictMap_of_passes hPasses List.nodup_nil with ⟨hNodup, hFields⟩
  refine ⟨⟨⟨hNodup, ?_⟩, ?_⟩, (mapOf_eq fields).symm⟩
  · intro field hMem
    exact (hFields field hMem).1
  · intro field hMem
    exact (hFields field hMem).2

/- The input maps of a file, and what each of them says. -/
def InputMaps (count : Nat) (inputs : List PsbtInput) (maps : List (List Field)) : Prop :=
  maps.length = count ∧ (∀ fields ∈ maps, ReadMap inputSingletons fields) ∧
    List.Forall₂ (fun fields input => ∃ index, inputFromFields index fields = .ok input) maps inputs

/- By induction over how many maps are read. -/
theorem readsOnly_readInputs (index count : Nat) :
    ReadsOnly (readInputs index count)
      (fun inputs bytes => ∃ maps, InputMaps count inputs maps ∧ bytes = maps.flatMap mapOf) := by
  induction count generalizing index with
  | zero =>
    apply (ReadsOnly.of_readsAs (ReadsAs.pure [])).imp
    rintro inputs bytes ⟨rfl, rfl⟩
    exact ⟨[], ⟨rfl, List.forall_mem_nil _, List.Forall₂.nil⟩, rfl⟩
  | succ count ih =>
    apply (((readsOnly_readMap inputSingletons).mapError (within "input" index)).bind fun fields =>
      (ReadsOnly.of_readsAs (ReadsAs.lift (inputFromFields index fields))).bind fun input =>
      (ih (index + 1)).bind fun inputs => ReadsOnly.of_readsAs (ReadsAs.pure (input :: inputs))).imp
    rintro values bytes
      ⟨fields, _, _, rfl, ⟨hMap, rfl⟩, input, _, _, rfl, ⟨hInput, rfl⟩, inputs, _, _, rfl,
        ⟨maps, ⟨hLength, hMaps, hInputs⟩, rfl⟩, rfl, rfl⟩
    refine ⟨fields :: maps,
      ⟨?_, List.forall_mem_cons.mpr ⟨hMap, hMaps⟩, List.Forall₂.cons ⟨index, hInput⟩ hInputs⟩, ?_⟩
    · rw [List.length_cons, hLength]
    · rw [List.flatMap_cons, List.nil_append, List.append_nil]

theorem readsOnly_readOutputs (index count : Nat) :
    ReadsOnly (readOutputs index count)
      (fun _ bytes => ∃ maps :
        List (List Field), maps.length = count ∧
          (∀ fields ∈ maps, ReadMap outputSingletons fields) ∧
          bytes = maps.flatMap mapOf) := by
  induction count generalizing index with
  | zero =>
    apply (ReadsOnly.of_readsAs (ReadsAs.pure ())).imp
    rintro _ bytes ⟨-, rfl⟩
    exact ⟨[], rfl, List.forall_mem_nil _, rfl⟩
  | succ count ih =>
    apply (((readsOnly_readMap outputSingletons).mapError (within "output" index)).bind fun _ => ih
      (index + 1)).imp
    rintro _ bytes ⟨fields, _, _, rfl, ⟨hMap, rfl⟩, maps, hLength, hMaps, rfl⟩
    refine ⟨fields :: maps, ?_, List.forall_mem_cons.mpr ⟨hMap, hMaps⟩, ?_⟩
    · rw [List.length_cons, hLength]
    · rw [List.flatMap_cons]

--- The Unsigned Transaction

variable {kind : UInt8} {value : List UInt8}

theorem mem_of_lookup (hLookup : lookup kind fields = some value) : ([kind], value) ∈ fields := by
  rcases Option.map_eq_some_iff.mp hLookup with ⟨⟨key, found⟩, hFound, rfl⟩
  have hSame := List.find?_some hFound
  have hKey := of_decide_eq_true hSame
  dsimp only at hKey
  rw [← hKey]
  exact List.mem_of_find?_eq_some hFound

/- A key that is in a map once is looked up. -/
theorem lookup_of_mem (hKeys : (fields.map Prod.fst).Nodup) (hMem : ([kind], value) ∈ fields) :
    lookup kind fields = some value := by
  induction fields with
  | nil => cases hMem
  | cons field fields ih =>
    rw [List.map_cons, List.nodup_cons] at hKeys
    unfold lookup
    rw [List.find?_cons]
    rcases List.mem_cons.mp hMem with rfl | hMem
    · rw [decide_eq_true rfl]
      rfl
    · have hOther : field.1 ≠ [kind] := by
        intro hSame
        apply hKeys.1
        rw [hSame]
        exact List.mem_map_of_mem hMem
      rw [decide_eq_false hOther]
      exact ih hKeys.2 hMem

/- A count that is stated is the one that was found. -/
theorem checkCount_eq_ok {global : List Field} {expected : Nat}
    (hKeys : (global.map Prod.fst).Nodup) (hCheck : checkCount global kind expected = .ok ())
    (hMem : ([kind], value) ∈ global) : value = varint (UInt64.ofNat expected) := by
  unfold checkCount at hCheck
  rw [lookup_of_mem hKeys hMem] at hCheck
  dsimp only at hCheck
  cases hRead : Cursor.compactSize value 0 with
  | error error =>
    rw [hRead] at hCheck
    cases hCheck
  | ok found =>
    rcases found with ⟨count, stop⟩
    rcases (readsAs_compactSize_psbt value 0 count stop (Nat.zero_le _)).mp hRead with
      ⟨piece, hPrefix, rfl, hStop⟩
    rw [hRead] at hCheck
    dsimp only at hCheck
    split at hCheck
    · cases hCheck
    · rename_i hBoth
      rw [not_or, not_not, not_not] at hBoth
      rw [List.drop_zero] at hPrefix
      rw [Nat.zero_add] at hStop
      rw [← hBoth.1]
      exact (hPrefix.eq_of_length (hStop.symm.trans hBoth.2)).symm

/- What the unsigned transaction of a global map is. -/
structure UnsignedIn (global : List Field) (tx : RawTransaction) : Prop where
  unsigned : ([globalUnsignedTx], tx.bytes) ∈ global
  inRange : tx.InRange
  unlocked : ∀ input ∈ tx.inputs, input.scriptSig = []
  inputCount :
    ∀ value, ([globalInputCount], value) ∈ global → value = varint (UInt64.ofNat tx.inputs.length)
  outputCount :
    ∀ value, ([globalOutputCount], value) ∈ global → value = varint (UInt64.ofNat tx.outputs.length)

theorem unsignedTransactionOf_eq_ok {global : List Field} (hKeys : (global.map Prod.fst).Nodup)
    {unsignedTx : List UInt8} {found : Rpa.ParsedTransaction}
    (hFound : unsignedTransactionOf global = .ok (unsignedTx, found)) :
    ∃ tx : RawTransaction,
    UnsignedIn global tx ∧ unsignedTx = tx.bytes ∧
      found.1.length = tx.inputs.length ∧
      found.2.length = tx.outputs.length := by
  unfold unsignedTransactionOf at hFound
  cases hLookup : lookup globalUnsignedTx global with
  | none =>
    rw [hLookup] at hFound
    cases hFound
  | some bytes =>
    rw [hLookup] at hFound
    rcases bind_eq_ok_iff.mp hFound with ⟨⟨inputs, outputs⟩, hParse, hFound⟩
    rcases Rpa.parseTransaction_eq_ok_iff.mp hParse with ⟨tx, hRange, rfl, rfl, rfl⟩
    split at hFound
    · cases hFound
    · rename_i hScripts
      rcases bind_eq_ok_iff.mp hFound with ⟨_, hInputs, hFound⟩
      rcases bind_eq_ok_iff.mp hFound with ⟨_, hOutputs, hFound⟩
      cases hFound
      dsimp only at hInputs hOutputs
      rw [List.length_map] at hInputs hOutputs
      refine
        ⟨tx,
          { unsigned := mem_of_lookup hLookup
            inRange := hRange
            unlocked := ?_
            inputCount := fun value hMem => checkCount_eq_ok hKeys hInputs hMem
            outputCount := fun value hMem =>
              checkCount_eq_ok hKeys hOutputs hMem }, rfl, List.length_map _, List.length_map _⟩
      intro input hMem
      dsimp only at hScripts
      rw [List.any_map, Bool.not_eq_true, List.any_eq_false] at hScripts
      have hHere := hScripts input hMem
      unfold RawInput.parsed at hHere
      simpa using hHere

--- Whole Files

/- What a file is that is parsed as an envelope. -/
structure ParsedFrom (envelope : Envelope) (tx : RawTransaction) (psbt : Psbt) : Prop where
  strict : envelope.Strict tx
  unsignedTx : psbt.unsignedTx = tx.bytes
  outputCount : psbt.outputCount = envelope.outputs.length
  inputs : InputMaps tx.inputs.length psbt.inputs envelope.inputs

theorem readsOnly_readMaps :
    ReadsOnly readMaps
      (fun psbt bytes =>
        ∃ envelope tx, ParsedFrom envelope tx psbt ∧ psbtMagic ++ bytes = envelope.bytes) := by
  change
    ReadsOnly
      (do
        let global ← Cursor.readMap globalSingletons
        let found ← Reader.lift (unsignedTransactionOf global)
        let inputs ← readInputs 0 found.2.1.length
        readOutputs 0 found.2.2.length
        pure ({ unsignedTx := found.1, inputs, outputCount := found.2.2.length } : Psbt)) _
  apply
    ((readsOnly_readMap globalSingletons).bind fun global => (ReadsOnly.of_readsAs
        (ReadsAs.lift (unsignedTransactionOf global))).bind
          fun found =>
        (readsOnly_readInputs 0 found.2.1.length).bind
          fun inputs => (readsOnly_readOutputs 0 found.2.2.length).bind
              fun _ => ReadsOnly.of_readsAs
                  (ReadsAs.pure
                    ({ unsignedTx := found.1, inputs, outputCount := found.2.2.length } :
                      Psbt))).imp
  rintro psbt bytes
    ⟨global, _, _, rfl, ⟨hGlobal, rfl⟩, ⟨unsignedTx, found⟩, _, _, rfl, ⟨hFound, rfl⟩, inputs, _, _,
      rfl, ⟨inputMaps, hInputs, rfl⟩, _, _, _, rfl, ⟨outputMaps, hOutputs, hOutputMaps, rfl⟩, rfl,
      rfl⟩
  rcases unsignedTransactionOf_eq_ok hGlobal.strict.keys hFound with
    ⟨tx, hUnsigned, rfl, hInputCount, hOutputCount⟩
  dsimp only at hInputs hOutputs
  rw [hInputCount] at hInputs
  rw [hOutputCount] at hOutputs
  refine
    ⟨{ global, inputs := inputMaps, outputs := outputMaps }, tx,
      { strict := ?_, unsignedTx := rfl, outputCount := ?_, inputs := hInputs }, ?_⟩
  · exact
      { maps := by
          intro fields hMem
          rcases List.mem_cons.mp hMem with rfl | hMem
          · exact hGlobal.strict
          · rcases List.mem_append.mp hMem with hMem | hMem
            · exact (hInputs.2.1 fields hMem).strict
            · exact (hOutputMaps fields hMem).strict
        unsigned := hUnsigned.unsigned
        inRange := hUnsigned.inRange
        unlocked := hUnsigned.unlocked
        inputs := hInputs.1
        outputs := hOutputs
        inputCount := hUnsigned.inputCount
        outputCount := hUnsigned.outputCount }
  · exact hOutputCount.trans hOutputs.symm
  · unfold Envelope.bytes
    rw [List.nil_append, List.append_nil]

/- What is parsed is an envelope, and all of it. -/
theorem exists_envelope {raw : List UInt8} {psbt : Psbt} (hParse : parse raw = .ok psbt) :
    ∃ envelope tx, ParsedFrom envelope tx psbt ∧ raw = envelope.bytes := by
  rcases parse_eq_ok_iff.mp hParse with ⟨hMagic, hRead⟩
  rcases readsOnly_readMaps raw psbtMagic.length psbt raw.length hMagic.length_le hRead with
    ⟨piece, hPiece, ⟨envelope, tx, hParsed, hBytes⟩, hStop⟩
  refine ⟨envelope, tx, hParsed, ?_⟩
  rcases hMagic with ⟨rest, rfl⟩
  rw [List.drop_left] at hPiece
  rw [List.length_append, Nat.add_left_cancel_iff] at hStop
  rw [← hBytes, hPiece.eq_of_length hStop.symm]

--- Signature Hash Types

/- A map that asks for a type with four bytes. -/
def Requests (fields : List Field) (sighash : UInt32) : Prop :=
  ∃ value, ([inSighashType], value) ∈ fields ∧
    value.length = 4 ∧ sighash = UInt32.ofNat (natOfBytesLE value)

variable {sighash : UInt32}

theorem supported_of_checkSighash (hCheck : checkSighash sighash = .ok ()) :
    sighash ∈ supportedSighashes := by
  unfold checkSighash at hCheck
  split at hCheck
  · cases hCheck
  · split at hCheck
    · cases hCheck
    · rename_i hMem
      exact not_not.mp hMem

variable {index : Nat} {inputs : List PsbtInput}

/- By induction over the inputs. -/
theorem agreed_with_first {first : UInt32}
    (hCheck : checkAgreement index (some first) inputs = .ok ()) :
    ∀ input ∈ inputs, input.sighashType = some first := by
  induction inputs generalizing index with
  | nil => exact List.forall_mem_nil _
  | cons input inputs ih =>
    unfold checkAgreement at hCheck
    cases hType : input.sighashType with
    | none =>
      rw [hType] at hCheck
      cases hCheck
    | some sighash =>
      rw [hType] at hCheck
      rcases bind_eq_ok_iff.mp hCheck with ⟨_, -, hCheck⟩
      dsimp only at hCheck
      split at hCheck
      · cases hCheck
      · rename_i hSame
        rw [List.forall_mem_cons, hType, ← not_not.mp hSame]
        exact ⟨rfl, ih hCheck⟩

/- The type of the first input is supported, and it is the one of every other. -/
theorem exists_agreed (hSome : inputs ≠ []) (hCheck : checkAgreement index none inputs = .ok ()) :
    ∃ sighash ∈ supportedSighashes, ∀ input ∈ inputs, input.sighashType = some sighash := by
  cases inputs with
  | nil => exact absurd rfl hSome
  | cons input inputs =>
    unfold checkAgreement at hCheck
    cases hType : input.sighashType with
    | none =>
      rw [hType] at hCheck
      cases hCheck
    | some sighash =>
      rw [hType] at hCheck
      rcases bind_eq_ok_iff.mp hCheck with ⟨_, hSupported, hCheck⟩
      refine ⟨sighash, supported_of_checkSighash (mapError_eq_ok_iff.mp hSupported), ?_⟩
      rw [List.forall_mem_cons]
      exact ⟨hType, agreed_with_first hCheck⟩

variable {input : PsbtInput}

/- What a record leaves of the type, or makes it. -/
theorem sighashType_of_noteField {next : PsbtInput} {field : Field}
    (hNote : noteField index input field = .ok next) :
    next.sighashType = input.sighashType ∨
    field.1.head? = some inSighashType ∧ field.2.length = 4 ∧
      next.sighashType = some (UInt32.ofNat (natOfBytesLE field.2)) := by
  unfold noteField at hNote
  rcases bind_eq_ok_iff.mp hNote with ⟨noted, hUtxo, hNote⟩
  have hKept : noted.sighashType = input.sighashType := by
    unfold noteUtxo at hUtxo
    split at hUtxo
    · cases hUtxo
      rfl
    · split at hUtxo
      · cases hUtxo
      · cases hUtxo
        rfl
  split at hNote
  · rename_i hKind
    split at hNote
    · cases hNote
    · rename_i hLength
      cases hNote
      exact Or.inr ⟨hKind, not_not.mp hLength, rfl⟩
  · split at hNote
    · rcases bind_eq_ok_iff.mp hNote with ⟨_, -, hNext⟩
      cases hNext
      exact Or.inl hKept
    · cases hNote
      exact Or.inl hKept

/- By induction over the records: a type that is found comes from one of them. -/
theorem exists_of_foldlM_noteField {final : PsbtInput}
    (hFold : fields.foldlM (noteField index) input = .ok final)
    (hFinal : final.sighashType = some sighash) :
    input.sighashType = some sighash ∨
    ∃ field ∈ fields,
      field.1.head? = some inSighashType ∧ field.2.length = 4 ∧
        sighash = UInt32.ofNat (natOfBytesLE field.2) := by
  induction fields generalizing input with
  | nil =>
    cases hFold
    exact Or.inl hFinal
  | cons field fields ih =>
    rw [List.foldlM_cons] at hFold
    rcases bind_eq_ok_iff.mp hFold with ⟨next, hNote, hRest⟩
    rcases ih hRest with hNext | ⟨other, hMem, hOther⟩
    · rcases sighashType_of_noteField hNote with hSame | ⟨hKind, hLength, hType⟩
      · exact Or.inl (hSame.symm.trans hNext)
      · rw [hNext] at hType
        exact Or.inr ⟨field, List.mem_cons_self, hKind, hLength, Option.some.inj hType⟩
    · exact Or.inr ⟨other, List.mem_cons_of_mem field hMem, hOther⟩

/- A type has a key of its own. -/
theorem requests_of_sighashType (hMap : ReadMap inputSingletons fields)
    (hInput : inputFromFields index fields = .ok input) (hType : input.sighashType = some sighash) :
    Requests fields sighash := by
  rcases exists_of_foldlM_noteField hInput hType with hNone |
    ⟨⟨key, value⟩, hMem, hKind, hLength, hValue⟩
  · cases hNone
  · refine ⟨value, ?_, hLength, hValue⟩
    cases key with
    | nil => cases hKind
    | cons kind data =>
      have hHead : kind = inSighashType := Option.some.inj hKind
      have hSingle := hMap.single _ hMem (by rw [List.headD_cons, hHead]; decide)
      rw [List.length_cons, Nat.add_eq_right, List.length_eq_zero_iff] at hSingle
      rw [hHead, hSingle] at hMem
      exact hMem

/- Every input asks for one and the same type. -/
theorem requests_all {maps : List (List Field)}
    (hMaps : ∀ fields ∈ maps, ReadMap inputSingletons fields)
    (hInputs :
      List.Forall₂ (fun fields input => ∃ index, inputFromFields index fields = .ok input) maps
        inputs) (hTypes : ∀ input ∈ inputs, input.sighashType = some sighash) :
    ∀ fields ∈ maps, Requests fields sighash := by
  induction hInputs with
  | nil => exact List.forall_mem_nil _
  | @cons fields input maps inputs hInput _ ih =>
    rw [List.forall_mem_cons] at hMaps hTypes
    rcases hInput with ⟨index, hInput⟩
    rw [List.forall_mem_cons]
    exact ⟨requests_of_sighashType hMaps.1 hInput hTypes.1, ih hMaps.2 hTypes.2⟩

/- What is left to say of a file that may be shown. -/
structure Agreed (envelope : Envelope) (psbt : Psbt) : Prop where
  some_input : envelope.inputs ≠ []
  sighash :
    ∃ sighash ∈ supportedSighashes,
    (∀ input ∈ psbt.inputs, input.sighashType = some sighash) ∧
      ∀ fields ∈ envelope.inputs, Requests fields sighash

theorem agreed_of_checkWatchOnly {raw : List UInt8} {network : Network} {envelope : Envelope}
    {tx : RawTransaction} {psbt : Psbt} (hParsed : ParsedFrom envelope tx psbt)
    (hCheck : checkWatchOnly raw network = .ok psbt) : Agreed envelope psbt := by
  rcases checkWatchOnly_eq_ok_iff.mp hCheck with ⟨-, -, hSome, hAgree⟩
  rcases exists_agreed hSome hAgree with ⟨sighash, hSupported, hTypes⟩
  rcases hParsed.inputs with ⟨-, hMaps, hInputs⟩
  refine ⟨?_, sighash, hSupported, hTypes, requests_all hMaps hInputs hTypes⟩
  intro hNil
  rw [hNil, List.forall₂_nil_left_iff] at hInputs
  exact hSome hInputs

/-
  Parsing a file that fits the memory comes to an end without an index out of range or a sum that
  overflows.  What it accepts is an envelope and nothing behind it: no key occurs twice in a map,
  there are as many maps as the unsigned transaction has inputs and outputs, and every length, key
  type and count of the maps and of that transaction is in its shortest form.  What may be shown
  has an input, and all inputs ask for one supported type.
-/
theorem parse_strict {raw : List UInt8} (hFits : FitsWord raw) :
    Indexed.parse raw = (parse raw).mapError Fault.error ∧
    Indexed.parse raw ≠ .error .panic ∧
    ∀ psbt,
      Indexed.parse raw = .ok psbt → ∃ envelope tx,
          ParsedFrom envelope tx psbt ∧ raw = envelope.bytes ∧
            ∀ network, checkWatchOnly raw network = .ok psbt → Agreed envelope psbt := by
  have hSame := Indexed.parse_eq hFits
  refine ⟨hSame, ?_, ?_⟩
  · rw [hSame]
    cases parse raw with
    | error error =>
      intro hPanic
      cases hPanic
    | ok psbt =>
      intro hPanic
      cases hPanic
  · intro psbt hRun
    rw [hSame] at hRun
    have hParse := mapError_eq_ok_iff.mp hRun
    rcases exists_envelope hParse with ⟨envelope, tx, hParsed, hBytes⟩
    refine ⟨envelope, tx, hParsed, hBytes, ?_⟩
    intro network hCheck
    exact agreed_of_checkWatchOnly hParsed hCheck

theorem parse_strict_sample :
    ∃ envelope tx,
    ParsedFrom envelope tx (recovered sampleInputs sampleOutputs 0x41) ∧
      sampleBytes = envelope.bytes ∧
      Agreed envelope (recovered sampleInputs sampleOutputs 0x41) := by
  rcases parse_encoded encode_sample sampleBytes_fitsWord with ⟨hSome, hSighash, hParse⟩
  have hStrict := parse_strict sampleBytes_fitsWord
  have hRun : Indexed.parse sampleBytes = .ok (recovered sampleInputs sampleOutputs 0x41) := by
    rw [hStrict.1, hParse]
    rfl
  rcases hStrict.2.2 _ hRun with ⟨envelope, tx, hParsed, hBytes, hAgreed⟩
  refine ⟨envelope, tx, hParsed, hBytes, hAgreed .chipnet ?_⟩
  rw [checkWatchOnly_eq_ok_iff]
  refine ⟨rfl, hParse, ?_, ?_⟩
  · intro hNil
    exact hSome (List.map_eq_nil_iff.mp hNil)
  · apply checkAgreement_parsed hSighash
    intro first hFirst
    cases hFirst

--- Parent Transactions

/- A transaction whose number of inputs is written in three bytes instead of one. -/
def longParent : List UInt8 :=
  [2, 0, 0, 0, 0xfd, 1, 0] ++ List.replicate 32 9 ++ [0, 0, 0, 0, 0, 0xff, 0xff, 0xff, 0xff] ++
    [1, 0x70, 0x11, 1, 0, 0, 0, 0, 0, 1, 0x51] ++ [0, 0, 0, 0]

def longParentInput : PsbtInputSpec where
  txidDisplay := Vector.replicate 32 9
  vout := 0
  sequence := none
  satoshis := 70000
  lockingBytecode := [0x51]
  previousTransaction := some longParent
  redeemScript := none
  partialSignatures := []
  derivations := [sampleOrigin 2]

def longParentEnvelope : Envelope where
  global := globalFields [longParentInput] sampleOutputs []
  inputs := [inputFields 0x41 longParentInput]
  outputs := sampleOutputs.map outputFields

theorem encode_longParent :
    encodeUnsignedWithSighash [longParentInput] sampleOutputs [] 0x41 =
      .ok longParentEnvelope.bytes := by
  decide +kernel

/- What a transaction that an input spends is written as is not looked at. -/
theorem parent_sizes_unchecked :
    ¬ ∀ raw psbt, FitsWord raw → parse raw = .ok psbt → ∀ envelope : Envelope, raw = envelope.bytes
      → ∀ fields ∈ envelope.inputs, ∀ parent, ([inNonWitnessUtxo], parent) ∈ fields →
      Rpa.parseTransaction parent ≠ .error
      (.protocol "transaction uses non-canonical CompactSize") := by
  intro hAll
  have hFits : FitsWord longParentEnvelope.bytes := by
    unfold FitsWord
    decide +kernel
  have hParse := (parse_encoded encode_longParent hFits).2.2
  have hParent :
      Rpa.parseTransaction longParent =
        .error (.protocol "transaction uses non-canonical CompactSize") := by
    decide +kernel
  exact hAll _ _ hFits hParse longParentEnvelope rfl (inputFields 0x41 longParentInput)
    List.mem_cons_self longParent List.mem_cons_self hParent

end Psbt

end OptnWallet
