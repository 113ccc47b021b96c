import OptnWallet.Core.Tx

/-
  What the bytes of a transaction spell: every field of its inputs and outputs, before a parser
  picks what it reports.

  Main declarations:
    * `RawTransaction.bytes`
    * `readsAs_readTransaction`
    * `decode_eq_ok_iff`
-/

--- Raw Transactions

namespace OptnWallet

open ByteFormat

structure RawInput where
  txid : Vector UInt8 32
  vout : UInt32
  scriptSig : List UInt8
  sequence : UInt32
deriving DecidableEq

structure RawOutput where
  value : UInt64
  field : List UInt8
deriving DecidableEq

structure RawTransaction where
  version : UInt32
  inputs : List RawInput
  outputs : List RawOutput
  locktime : UInt32
deriving DecidableEq

namespace RawInput

def bytes (raw : RawInput) : List UInt8 :=
  raw.txid.toList ++ (bytesLE raw.vout.toNat 4 ++ (varint (UInt64.ofNat raw.scriptSig.length) ++
        (raw.scriptSig ++ bytesLE raw.sequence.toNat 4)))

/- The length fits its count. -/
def InRange (raw : RawInput) : Prop := raw.scriptSig.length < 2 ^ 64

/- What `decode` reports of an input. -/
def decoded (raw : RawInput) : Vector UInt8 32 × UInt32 × UInt32 :=
  (raw.txid, raw.vout, raw.sequence)

end RawInput

namespace RawOutput

def bytes (raw : RawOutput) : List UInt8 :=
  bytesLE raw.value.toNat 8 ++ (varint (UInt64.ofNat raw.field.length) ++ raw.field)

def InRange (raw : RawOutput) : Prop := raw.field.length < 2 ^ 64

/- What `decode` reports of an output. -/
def decoded (raw : RawOutput) : Except CliError DecodedOutput :=
  match splitField raw.field with
  | .ok split => .ok { value := raw.value, scriptPubkey := split.2, token := split.1 }
  | .error error => .error error

end RawOutput

namespace RawTransaction

def bytes (raw : RawTransaction) : List UInt8 :=
  bytesLE raw.version.toNat 4 ++ (varint (UInt64.ofNat raw.inputs.length) ++
      (raw.inputs.flatMap RawInput.bytes ++ (varint (UInt64.ofNat raw.outputs.length) ++
          (raw.outputs.flatMap RawOutput.bytes ++ bytesLE raw.locktime.toNat 4))))

structure InRange (raw : RawTransaction) : Prop where
  input_count : raw.inputs.length < 2 ^ 64
  inputs : ∀ input ∈ raw.inputs, input.InRange
  output_count : raw.outputs.length < 2 ^ 64
  outputs : ∀ output ∈ raw.outputs, output.InRange

/- What `decode` reports of a transaction. -/
structure Decodes (raw : RawTransaction) (decoded : Decoded) : Prop where
  version : decoded.version = raw.version
  inputs : decoded.inputs = raw.inputs.map RawInput.decoded
  outputs :
    List.Forall₂ (fun output found => output.decoded = .ok found) raw.outputs decoded.outputs
  locktime : decoded.locktime = raw.locktime

end RawTransaction

--- Fixed Fields And Counts

theorem readsAs_takeU32 : ReadsAs takeU32 (fun value bytes => bytes = bytesLE value.toNat 4) := by
  unfold takeU32
  rw [bind_pure_comp]
  apply ((ReadsAs.take truncated 4).map _).congr
  intro value bytes
  constructor
  · rintro ⟨read, rfl, rfl, hLength⟩
    have hLt := natOfBytesLE_lt read
    rw [hLength] at hLt
    change natOfBytesLE read < 2 ^ 32 at hLt
    rw [UInt32.toNat_ofNat', Nat.mod_eq_of_lt hLt, ← hLength, bytesLE_natOfBytesLE]
  · rintro rfl
    refine ⟨_, ?_, rfl, length_bytesLE _ _⟩
    rw [natOfBytesLE_bytesLE value.toNat_lt, UInt32.ofNat_toNat]

theorem readsAs_takeU64 : ReadsAs takeU64 (fun value bytes => bytes = bytesLE value.toNat 8) := by
  unfold takeU64
  rw [bind_pure_comp]
  apply ((ReadsAs.take truncated 8).map _).congr
  intro value bytes
  constructor
  · rintro ⟨read, rfl, rfl, hLength⟩
    have hLt := natOfBytesLE_lt read
    rw [hLength] at hLt
    change natOfBytesLE read < 2 ^ 64 at hLt
    rw [UInt64.toNat_ofNat', Nat.mod_eq_of_lt hLt, ← hLength, bytesLE_natOfBytesLE]
  · rintro rfl
    refine ⟨_, ?_, rfl, length_bytesLE _ _⟩
    rw [natOfBytesLE_bytesLE value.toNat_lt, UInt64.ofNat_toNat]

/- Both parsers' varints are the shortest ones. -/
theorem readsAs_minimalVarint (short error : CliError) :
    ReadsAs (compactSize short (minimal error)) (fun value bytes => bytes = varint value) := by
  apply (readsAs_compactSize short (minimal error)).congr
  intro value bytes
  exact compactLayout_minimal_iff

variable {varintReader : Reader CliError UInt64}

section

variable (hVarint : ReadsAs varintReader (fun value bytes => bytes = varint value))
include hVarint

/- A counted field is a count and as many bytes. -/
theorem readsAs_counted {short : CliError} :
    ReadsAs (varintReader >>= fun count => Reader.take short count.toNat)
      (fun field bytes =>
        field.length < 2 ^ 64 ∧ bytes = varint (UInt64.ofNat field.length) ++ field) := by
  apply (hVarint.bind fun count => ReadsAs.take short count.toNat).congr
  intro field bytes
  constructor
  · rintro ⟨count, _, _, rfl, rfl, rfl, hLength⟩
    rw [hLength, UInt64.ofNat_toNat]
    exact ⟨count.toNat_lt, rfl⟩
  · rintro ⟨hRange, rfl⟩
    refine ⟨_, _, _, rfl, rfl, rfl, ?_⟩
    rw [UInt64.toNat_ofNat', Nat.mod_eq_of_lt hRange]

/- A counted list is a count and as many values. -/
theorem readsAs_countedList {α β : Type} {reader : Reader CliError α} {source : β → α → Prop}
    {bytesOf : β → List UInt8}
    (hReader : ReadsAs reader (fun value bytes => ∃ b, source b value ∧ bytes = bytesOf b)) :
    ReadsAs (varintReader >>= fun count => Reader.many reader count.toNat)
      (fun values bytes => ∃ sources,
          List.Forall₂ source sources values ∧ sources.length < 2 ^ 64 ∧
            bytes = varint (UInt64.ofNat sources.length) ++ sources.flatMap bytesOf) := by
  apply (hVarint.bind fun count => hReader.many count.toNat).congr
  intro values bytes
  constructor
  · rintro ⟨count, _, _, rfl, rfl, hCount, hList⟩
    rcases (Layout.list_iff fun _ _ => Iff.rfl).mp hList with ⟨sources, hSources, rfl⟩
    refine ⟨sources, hSources, ?_, ?_⟩
    · rw [hSources.length_eq, hCount]
      exact count.toNat_lt
    · rw [hSources.length_eq, hCount, UInt64.ofNat_toNat]
  · rintro ⟨sources, hSources, hRange, rfl⟩
    refine ⟨_, _, _, rfl, rfl, ?_, ?_⟩
    · rw [← hSources.length_eq, UInt64.toNat_ofNat', Nat.mod_eq_of_lt hRange]
    · apply (Layout.list_iff fun _ _ => Iff.rfl).mpr
      exact ⟨sources, hSources, rfl⟩

end

--- Inputs And Outputs

/- An input with everything that its bytes spell. -/
def readInput (varintReader : Reader CliError UInt64) : Reader CliError RawInput := do
  let txid ← Reader.takeArray truncated 32
  let vout ← takeU32
  let scriptSig ← varintReader >>= fun count => Reader.take truncated count.toNat
  let sequence ← takeU32
  pure (RawInput.mk txid vout scriptSig sequence)

variable (hVarint : ReadsAs varintReader (fun value bytes => bytes = varint value))

include hVarint in
theorem readsAs_readInput :
    ReadsAs (readInput varintReader) (fun raw bytes => raw.InRange ∧ bytes = raw.bytes) := by
  apply ((ReadsAs.takeArray truncated 32).bind fun txid => readsAs_takeU32.bind fun vout =>
    (readsAs_counted hVarint).bind fun scriptSig => readsAs_takeU32.bind fun sequence =>
    ReadsAs.pure (RawInput.mk txid vout scriptSig sequence)).congr
  intro raw bytes
  constructor
  · rintro ⟨txid, _, _, rfl, rfl, vout, _, _, rfl, rfl, scriptSig, _, _, rfl, ⟨hRange, rfl⟩,
      sequence, _, _, rfl, rfl, rfl, rfl⟩
    refine ⟨hRange, ?_⟩
    unfold RawInput.bytes
    simp
  · rintro ⟨hRange, rfl⟩
    refine ⟨raw.txid, _, _, rfl, rfl, raw.vout, _, _, rfl, rfl, raw.scriptSig, _, _, ?_,
      ⟨hRange, rfl⟩, raw.sequence, _, [], rfl, rfl, rfl, rfl⟩
    simp

def readOutput (varintReader : Reader CliError UInt64) : Reader CliError RawOutput := do
  let value ← takeU64
  let field ← varintReader >>= fun count => Reader.take truncated count.toNat
  pure (RawOutput.mk value field)

include hVarint in
theorem readsAs_readOutput :
    ReadsAs (readOutput varintReader) (fun raw bytes => raw.InRange ∧ bytes = raw.bytes) := by
  apply (readsAs_takeU64.bind fun value => (readsAs_counted hVarint).bind fun field => ReadsAs.pure
    (RawOutput.mk value field)).congr
  intro raw bytes
  constructor
  · rintro ⟨value, _, _, rfl, rfl, field, _, _, rfl, ⟨hRange, rfl⟩, rfl, rfl⟩
    refine ⟨hRange, ?_⟩
    unfold RawOutput.bytes
    simp
  · rintro ⟨hRange, rfl⟩
    refine ⟨raw.value, _, _, rfl, rfl, raw.field, _, [], ?_, ⟨hRange, rfl⟩, rfl, rfl⟩
    simp

--- Whole Transactions

/- The shape of a transaction, with what a parser makes of an input and of an output. -/
def readTransaction {α β : Type} (varintReader : Reader CliError UInt64) (input : Reader CliError α)
    (output : Reader CliError β) : Reader CliError (UInt32 × List α × List β × UInt32) := do
  let version ← takeU32
  let inputs ← varintReader >>= fun count => Reader.many input count.toNat
  let outputs ← varintReader >>= fun count => Reader.many output count.toNat
  let locktime ← takeU32
  pure (version, inputs, outputs, locktime)

include hVarint in
theorem readsAs_readTransaction {α β : Type} {input : Reader CliError α}
    {output : Reader CliError β} {fromInput : RawInput → α → Prop}
    {fromOutput : RawOutput → β → Prop}
    (hInput :
      ReadsAs input (fun value bytes => ∃ raw : RawInput, fromInput raw value ∧ bytes = raw.bytes))
    (hOutput :
        ReadsAs output
          (fun value bytes => ∃ raw : RawOutput, fromOutput raw value ∧ bytes = raw.bytes)) :
    ReadsAs (readTransaction varintReader input output)
      (fun found bytes => ∃ raw :
        RawTransaction, found.1 = raw.version ∧ List.Forall₂ fromInput raw.inputs found.2.1 ∧
          raw.inputs.length < 2 ^ 64 ∧
          List.Forall₂ fromOutput raw.outputs found.2.2.1 ∧
          raw.outputs.length < 2 ^ 64 ∧
          found.2.2.2 = raw.locktime ∧
          bytes = raw.bytes) := by
  apply (readsAs_takeU32.bind fun version => (readsAs_countedList hVarint hInput).bind fun inputs =>
    (readsAs_countedList hVarint hOutput).bind fun outputs => readsAs_takeU32.bind fun locktime =>
    ReadsAs.pure (version, inputs, outputs, locktime)).congr
  intro found bytes
  constructor
  · rintro
      ⟨version, _, _, rfl, rfl, inputs, _, _, rfl, ⟨ins, hIns, hInCount, rfl⟩, outputs, _, _, rfl,
        ⟨outs, hOuts, hOutCount, rfl⟩, locktime, _, _, rfl, rfl, rfl, rfl⟩
    refine
      ⟨{ version, inputs := ins, outputs := outs, locktime },
        rfl, hIns, hInCount, hOuts, hOutCount, rfl, ?_⟩
    unfold RawTransaction.bytes
    simp
  · rcases found with ⟨version, inputs, outputs, locktime⟩
    rintro ⟨raw, rfl, hIns, hInCount, hOuts, hOutCount, rfl, rfl⟩
    refine
      ⟨raw.version, _, _, ?_, rfl, inputs, _, _, rfl, ⟨raw.inputs, hIns, hInCount, rfl⟩, outputs, _,
        _, rfl, ⟨raw.outputs, hOuts, hOutCount, rfl⟩, raw.locktime, _, [], rfl, rfl, rfl, rfl⟩
    unfold RawTransaction.bytes
    simp

--- What Decoding Accepts

theorem readsAs_takeVarint : ReadsAs takeVarint (fun value bytes => bytes = varint value) :=
  readsAs_minimalVarint _ _

theorem decodeInput_eq : decodeInput = RawInput.decoded <$> readInput takeVarint := by
  unfold decodeInput readInput
  simp only [map_eq_pure_bind, bind_assoc, pure_bind]
  rfl

theorem readsAs_decodeInput :
    ReadsAs decodeInput
      (fun value bytes => ∃ raw :
        RawInput, (raw.InRange ∧ raw.decoded = value) ∧ bytes = raw.bytes) := by
  rw [decodeInput_eq]
  exact (readsAs_readInput readsAs_takeVarint).mapSpelled _

theorem decodeOutput_eq :
    decodeOutput = readOutput takeVarint >>= fun raw => Reader.lift raw.decoded := by
  have hLift (value : UInt64) (field : List UInt8) :
      (Reader.lift (splitField field) >>= fun split =>
          pure (DecodedOutput.mk value split.2 split.1)) =
        Reader.lift (RawOutput.mk value field).decoded := by
    funext bytes position
    unfold RawOutput.decoded
    dsimp only
    cases hSplit : splitField field with
    | ok split => rfl
    | error error => rfl
  unfold decodeOutput readOutput
  simp only [bind_assoc, pure_bind, hLift]

theorem readsAs_decodeOutput :
    ReadsAs decodeOutput
      (fun value bytes => ∃ raw :
        RawOutput, (raw.InRange ∧ raw.decoded = .ok value) ∧ bytes = raw.bytes) := by
  rw [decodeOutput_eq]
  apply ((readsAs_readOutput readsAs_takeVarint).bindLift RawOutput.decoded).congr
  intro value bytes
  constructor
  · rintro ⟨raw, hValue, hRange, hBytes⟩
    exact ⟨raw, ⟨hRange, hValue⟩, hBytes⟩
  · rintro ⟨raw, ⟨hRange, hValue⟩, hBytes⟩
    exact ⟨raw, hValue, hRange, hBytes⟩

theorem decodeTransaction_eq :
    decodeTransaction =
      (fun found => Decoded.mk found.1 found.2.1 found.2.2.1 found.2.2.2) <$> readTransaction
        takeVarint decodeInput decodeOutput := by
  unfold decodeTransaction readTransaction
  simp only [map_eq_pure_bind, bind_assoc, pure_bind]

/- Decoding accepts exactly the bytes of raw transactions whose token prefixes decode. -/
theorem decode_eq_ok_iff {bytes : List UInt8} {decoded : Decoded} :
    decode bytes = .ok decoded ↔
    ∃ raw : RawTransaction, raw.InRange ∧ raw.Decodes decoded ∧ bytes = raw.bytes := by
  have hReads :=
    (readsAs_readTransaction readsAs_takeVarint readsAs_decodeInput readsAs_decodeOutput).map
      (fun found => Decoded.mk found.1 found.2.1 found.2.2.1 found.2.2.2)
  rw [← decodeTransaction_eq] at hReads
  unfold decode
  rw [hReads.readAll_eq_ok_iff]
  simp only [List.forall₂_and_left]
  constructor
  · rintro ⟨⟨version, inputs, outputs, locktime⟩, rfl, raw, hVersion, ⟨hInRange, hIns⟩, hInCount,
      ⟨hOutRange, hOuts⟩, hOutCount, hLocktime, rfl⟩
    refine ⟨raw, ⟨hInCount, hInRange, hOutCount, hOutRange⟩, ⟨hVersion, ?_, hOuts, hLocktime⟩, rfl⟩
    rw [← List.forall₂_map_left_iff, List.forall₂_eq_eq_eq] at hIns
    exact hIns.symm
  · rintro ⟨raw, hRange, hDecodes, rfl⟩
    refine ⟨(decoded.version, decoded.inputs, decoded.outputs, decoded.locktime), rfl, raw,
      hDecodes.version, ⟨hRange.inputs, ?_⟩, hRange.input_count, ⟨hRange.outputs, hDecodes.outputs⟩,
      hRange.output_count, hDecodes.locktime, rfl⟩
    dsimp only
    rw [hDecodes.inputs, List.forall₂_map_right_iff]
    exact List.forall₂_same.mpr fun _ _ => rfl

--- One Reading

/- Bytes start with at most one raw transaction. -/
theorem RawTransaction.unique {raw raw' : RawTransaction} (hRange : raw.InRange)
    (hRange' : raw'.InRange) {tail tail' : List UInt8}
    (hSame : raw.bytes ++ tail = raw'.bytes ++ tail') : raw = raw' := by
  have hInput := (readsAs_readInput readsAs_takeVarint).mapSpelled id
  have hOutput := (readsAs_readOutput readsAs_takeVarint).mapSpelled id
  rw [id_map] at hInput hOutput
  have hSpells {raw : RawTransaction} (hRange : raw.InRange) :
      ∃ raw' : RawTransaction,
        raw.version = raw'.version ∧ List.Forall₂
              (fun (input : RawInput) value => input.InRange ∧ input = value)
              raw'.inputs raw.inputs ∧
            raw'.inputs.length < 2 ^ 64 ∧ List.Forall₂
                  (fun (output : RawOutput) value => output.InRange ∧ output = value)
                  raw'.outputs raw.outputs ∧
                raw'.outputs.length < 2 ^ 64 ∧ raw.locktime = raw'.locktime ∧
                  raw.bytes = raw'.bytes := by
    refine ⟨raw, rfl, ?_, hRange.input_count, ?_, hRange.output_count, rfl, rfl⟩
    · exact List.forall₂_same.mpr fun input hMem => ⟨hRange.inputs input hMem, rfl⟩
    · exact List.forall₂_same.mpr fun output hMem => ⟨hRange.outputs output hMem, rfl⟩
  have hFound :
      (raw.version, raw.inputs, raw.outputs, raw.locktime) =
        (raw'.version, raw'.inputs, raw'.outputs, raw'.locktime) :=
    ((readsAs_readTransaction readsAs_takeVarint hInput hOutput).unique (hSpells hRange)
      (hSpells hRange') hSame).1
  rcases raw with ⟨version, inputs, outputs, locktime⟩
  rcases raw' with ⟨version', inputs', outputs', locktime'⟩
  cases hFound
  rfl

end OptnWallet
