import OptnWallet.Library.ByteFormat.Spelling
import OptnWallet.Neutrino.Blocks

/-
  What the bytes of a block hold: a header, a count at any width and that many transactions, each
  with its inputs and outputs.  An accepted block is such bytes, and such bytes hold one list of
  transactions.

  Main declarations:
    * `Neutrino.transactionLayout`
    * `Neutrino.BlockHolds` and `Neutrino.BlockHolds.unique`
    * `Neutrino.readsOnly_readTransactions`
-/

--- Transactions

namespace OptnWallet.Neutrino

open ByteFormat

/- A count at any width. -/
def countLayout : Layout Nat :=
  fun count bytes => ∃ value, compactLayout anyWidth value bytes ∧ count = value.toNat

def inputLayout : Layout RawInput :=
  fun raw bytes => ∃ count,
      countLayout raw.scriptSig.length count ∧ bytes = raw.txid.toList ++
            (bytesLE raw.vout.toNat 4 ++ (count ++ (raw.scriptSig ++ bytesLE raw.sequence.toNat 4)))

def outputLayout : Layout RawOutput :=
  fun raw bytes => ∃ count,
      countLayout raw.field.length count ∧ bytes = bytesLE raw.value.toNat 8 ++ (count ++ raw.field)

def transactionLayout : Layout RawTransaction :=
  fun raw bytes => ∃ inputCount inputs outputCount outputs,
      countLayout raw.inputs.length inputCount ∧ inputLayout.list raw.inputs inputs ∧
        countLayout raw.outputs.length outputCount ∧
        outputLayout.list raw.outputs outputs ∧
        bytes = bytesLE raw.version.toNat 4 ++
            (inputCount ++ (inputs ++ (outputCount ++ (outputs ++ bytesLE raw.locktime.toNat 4))))

/- Whether a transaction spends a watched outpoint, unless it is the coinbase, or pays to a watched
   script. -/
def touchesWatched (watched : Watched) (isCoinbase : Bool) (raw : RawTransaction) : Bool :=
  (!isCoinbase && raw.inputs.any (fun input => watched.outpoints.contains (input.txid, input.vout)))
      ||
    raw.outputs.any (fun output => watched.scripts.contains output.field)

--- One Way to Read

theorem countLayout_unique : countLayout.Unique := by
  intro count count' piece piece' tail tail' hPiece hPiece' hSame
  rcases hPiece with ⟨value, hPiece, rfl⟩
  rcases hPiece' with ⟨value', hPiece', rfl⟩
  have hReads := readsAs_compactSize truncated anyWidth
  rcases hReads.unique hPiece hPiece' hSame with ⟨rfl, rfl⟩
  exact ⟨rfl, rfl⟩

/- Words of one width are told apart by their bytes. -/
theorem eq_of_bytesLE {width value value' : Nat} (hValue : value < 256 ^ width)
    (hValue' : value' < 256 ^ width) (hSame : bytesLE value width = bytesLE value' width) :
    value = value' := by
  rw [← natOfBytesLE_bytesLE hValue, hSame, natOfBytesLE_bytesLE hValue']

theorem word32_append {word word' : UInt32} {tail tail' : List UInt8}
    (hSame : bytesLE word.toNat 4 ++ tail = bytesLE word'.toNat 4 ++ tail') :
    word = word' ∧ tail = tail' := by
  have hWidth : (bytesLE word.toNat 4).length = (bytesLE word'.toNat 4).length := by simp
  rcases List.append_inj hSame hWidth with ⟨hWord, hTail⟩
  have hNat := eq_of_bytesLE word.toNat_lt word'.toNat_lt hWord
  exact ⟨UInt32.toNat_inj.mp hNat, hTail⟩

theorem word64_append {word word' : UInt64} {tail tail' : List UInt8}
    (hSame : bytesLE word.toNat 8 ++ tail = bytesLE word'.toNat 8 ++ tail') :
    word = word' ∧ tail = tail' := by
  have hWidth : (bytesLE word.toNat 8).length = (bytesLE word'.toNat 8).length := by simp
  rcases List.append_inj hSame hWidth with ⟨hWord, hTail⟩
  have hNat := eq_of_bytesLE word.toNat_lt word'.toNat_lt hWord
  exact ⟨UInt64.toNat_inj.mp hNat, hTail⟩

theorem inputLayout_unique : inputLayout.Unique := by
  intro raw raw' piece piece' tail tail' hPiece hPiece' hSame
  rcases hPiece with ⟨count, hCount, rfl⟩
  rcases hPiece' with ⟨count', hCount', rfl⟩
  simp only [List.append_assoc] at hSame
  have hWidth : raw.txid.toList.length = raw'.txid.toList.length := by simp
  rcases List.append_inj hSame hWidth with ⟨hTxid, hSame⟩
  rcases word32_append hSame with ⟨hVout, hSame⟩
  rcases countLayout_unique _ _ _ _ _ _ hCount hCount' hSame with ⟨hLength, rfl⟩
  rw [List.append_cancel_left_eq] at hSame
  rcases List.append_inj hSame hLength with ⟨hScript, hSame⟩
  rcases word32_append hSame with ⟨hSequence, -⟩
  have hRaw : raw = raw' := by
    rcases raw with ⟨txid, vout, scriptSig, sequence⟩
    rcases raw' with ⟨txid', vout', scriptSig', sequence'⟩
    simp only [RawInput.mk.injEq]
    exact ⟨Vector.toList_inj.mp hTxid, hVout, hScript, hSequence⟩
  subst hRaw
  exact ⟨rfl, rfl⟩

theorem outputLayout_unique : outputLayout.Unique := by
  intro raw raw' piece piece' tail tail' hPiece hPiece' hSame
  rcases hPiece with ⟨count, hCount, rfl⟩
  rcases hPiece' with ⟨count', hCount', rfl⟩
  simp only [List.append_assoc] at hSame
  rcases word64_append hSame with ⟨hValue, hSame⟩
  rcases countLayout_unique _ _ _ _ _ _ hCount hCount' hSame with ⟨hLength, rfl⟩
  rw [List.append_cancel_left_eq] at hSame
  rcases List.append_inj hSame hLength with ⟨hField, -⟩
  have hRaw : raw = raw' := by
    rcases raw with ⟨value, field⟩
    rcases raw' with ⟨value', field'⟩
    simp only [RawOutput.mk.injEq]
    exact ⟨hValue, hField⟩
  subst hRaw
  exact ⟨rfl, rfl⟩

theorem transactionLayout_unique : transactionLayout.Unique := by
  intro raw raw' piece piece' tail tail' hPiece hPiece' hSame
  rcases hPiece with
    ⟨inputCount, inputs, outputCount, outputs, hInputCount, hInputs, hOutputCount, hOutputs, rfl⟩
  rcases hPiece' with
    ⟨inputCount', inputs', outputCount', outputs', hInputCount', hInputs', hOutputCount', hOutputs',
      rfl⟩
  simp only [List.append_assoc] at hSame
  rcases word32_append hSame with ⟨hVersion, hSame⟩
  rcases countLayout_unique _ _ _ _ _ _ hInputCount hInputCount' hSame with ⟨hInputLength, rfl⟩
  rw [List.append_cancel_left_eq] at hSame
  rcases inputLayout_unique.list hInputLength hInputs hInputs' hSame with ⟨hInputList, rfl⟩
  rw [List.append_cancel_left_eq] at hSame
  rcases countLayout_unique _ _ _ _ _ _ hOutputCount hOutputCount' hSame with ⟨hOutputLength, rfl⟩
  rw [List.append_cancel_left_eq] at hSame
  rcases outputLayout_unique.list hOutputLength hOutputs hOutputs' hSame with ⟨hOutputList, rfl⟩
  rw [List.append_cancel_left_eq] at hSame
  rcases word32_append hSame with ⟨hLocktime, -⟩
  have hRaw : raw = raw' := by
    rcases raw with ⟨version, ins, outs, locktime⟩
    rcases raw' with ⟨version', ins', outs', locktime'⟩
    simp only [RawTransaction.mk.injEq]
    exact ⟨hVersion, hInputList, hOutputList, hLocktime⟩
  subst hRaw
  exact ⟨rfl, rfl⟩

--- Shortest Counts

theorem countLayout_varint {count : Nat} (hCount : count < 2 ^ 64) :
    countLayout count (varint (UInt64.ofNat count)) := by
  refine ⟨_, compactLayout_anyWidth_varint _, ?_⟩
  rw [UInt64.toNat_ofNat', Nat.mod_eq_of_lt hCount]

theorem list_flatMap {α : Type} {layout : Layout α} {bytesOf : α → List UInt8} {values : List α}
    (hLayout : ∀ value ∈ values, layout value (bytesOf value)) :
    layout.list values (values.flatMap bytesOf) := by
  induction values with
  | nil => rfl
  | cons value values ih =>
    rw [List.forall_mem_cons] at hLayout
    exact ⟨bytesOf value, values.flatMap bytesOf, rfl, hLayout.1, ih hLayout.2⟩

/- The bytes with the shortest counts are among those that are read. -/
theorem transactionLayout_bytes {raw : RawTransaction} (hRange : raw.InRange) :
    transactionLayout raw raw.bytes := by
  refine ⟨_, _, _, _, countLayout_varint hRange.input_count, ?_,
    countLayout_varint hRange.output_count, ?_, rfl⟩
  · apply list_flatMap
    intro input hInput
    exact ⟨_, countLayout_varint (hRange.inputs input hInput), rfl⟩
  · apply list_flatMap
    intro output hOutput
    exact ⟨_, countLayout_varint (hRange.outputs output hOutput), rfl⟩

--- What the Readers Accept

theorem readsOnly_take (count : Nat) :
    ReadsOnly (take count) (fun value bytes => value = bytes ∧ bytes.length = count) := by
  intro bytes start value stop hStart hRead
  unfold take at hRead
  split at hRead
  · cases hRead
  · exact ReadsOnly.of_readsAs (ReadsAs.take _ count) bytes start value stop hStart hRead

theorem readsOnly_readTxid : ReadsOnly readTxid (fun value bytes => bytes = value.toList) := by
  intro bytes start value stop hStart hRead
  unfold readTxid at hRead
  split at hRead
  · cases hRead
  · exact ReadsOnly.of_readsAs (ReadsAs.takeArray _ 32) bytes start value stop hStart hRead

theorem readsOnly_check (holds : Bool) (message : String) :
    ReadsOnly (check holds message) (fun _ bytes => holds = true ∧ bytes = []) := by
  unfold check
  apply (ReadsOnly.of_readsAs (ReadsAs.lift _)).imp
  rintro value bytes ⟨hHolds, rfl⟩
  split at hHolds
  · rename_i hHolds'
    exact ⟨hHolds', rfl⟩
  · cases hHolds

/- Four bytes are a word. -/
theorem exists_word32 {bytes : List UInt8} (hLength : bytes.length = 4) :
    bytesLE (UInt32.ofNat (natOfBytesLE bytes)).toNat 4 = bytes := by
  have hLt := natOfBytesLE_lt bytes
  rw [hLength] at hLt
  change natOfBytesLE bytes < 2 ^ 32 at hLt
  rw [UInt32.toNat_ofNat', Nat.mod_eq_of_lt hLt, ← hLength, bytesLE_natOfBytesLE]

theorem exists_word64 {bytes : List UInt8} (hLength : bytes.length = 8) :
    bytesLE (UInt64.ofNat (natOfBytesLE bytes)).toNat 8 = bytes := by
  have hLt := natOfBytesLE_lt bytes
  rw [hLength] at hLt
  change natOfBytesLE bytes < 2 ^ 64 at hLt
  rw [UInt64.toNat_ofNat', Nat.mod_eq_of_lt hLt, ← hLength, bytesLE_natOfBytesLE]

theorem readsOnly_readU32 :
    ReadsOnly readU32 (fun value bytes => bytes = bytesLE value.toNat 4) := by
  unfold readU32
  apply ((readsOnly_take 4).bind fun read => ReadsOnly.of_readsAs (ReadsAs.pure _)).imp
  rintro value bytes ⟨read, _, _, rfl, ⟨rfl, hLength⟩, rfl, rfl⟩
  rw [exists_word32 hLength, List.append_nil]

theorem readsOnly_readVarint :
    ReadsOnly readVarint (fun value bytes => countLayout value.toNat bytes) := by
  unfold readVarint
  apply ((readsOnly_take 1).bind fun first => (readsOnly_take _).bind fun payload =>
    ReadsOnly.of_readsAs (ReadsAs.pure _)).imp
  rintro value bytes ⟨first, _, _, rfl, ⟨rfl, hOne⟩, payload, _, _, rfl, ⟨rfl, hLength⟩, rfl, rfl⟩
  rcases List.length_eq_one_iff.mp hOne with ⟨byte, rfl⟩
  refine ⟨_, ⟨byte, payload, ?_, hLength, rfl, rfl⟩, rfl⟩
  simp

variable (watched : Watched) (isCoinbase : Bool)

/- An input, and whether its outpoint is watched. -/
theorem readsOnly_inputTouches :
    ReadsOnly (inputTouches watched isCoinbase)
      (inputLayout.via fun input => !isCoinbase && watched.outpoints.contains
        (input.txid, input.vout)) := by
  unfold inputTouches
  apply (readsOnly_readTxid.bind fun prevTxid => readsOnly_readU32.bind fun vout =>
    readsOnly_readVarint.bind fun scriptLen => (readsOnly_take scriptLen.toNat).bind fun _ =>
    (readsOnly_take 4).bind fun _ => ReadsOnly.of_readsAs (ReadsAs.pure _)).imp
  rintro value bytes
    ⟨txid, _, _, rfl, rfl, vout, _, _, rfl, rfl, scriptLen, count, _, rfl, hCount, script, _, _,
      rfl, ⟨rfl, hScript⟩, sequence, _, _, rfl, ⟨rfl, hSequence⟩, rfl, rfl⟩
  refine
    ⟨{ txid, vout, scriptSig := script, sequence := UInt32.ofNat (natOfBytesLE sequence) },
      ⟨count, ?_, ?_⟩, rfl⟩
  · rw [hScript]
    exact hCount
  · rw [exists_word32 hSequence, List.append_nil]

/- An output, and whether its script field is watched. -/
theorem readsOnly_outputTouches :
    ReadsOnly (outputTouches watched)
      (outputLayout.via fun output => watched.scripts.contains output.field) := by
  unfold outputTouches
  apply ((readsOnly_take 8).bind fun _ => readsOnly_readVarint.bind fun scriptLen =>
    (readsOnly_take scriptLen.toNat).bind fun _ => ReadsOnly.of_readsAs (ReadsAs.pure _)).imp
  rintro found bytes
    ⟨value, _, _, rfl, ⟨rfl, hValue⟩, scriptLen, count, _, rfl, hCount, script, _, _, rfl,
      ⟨rfl, hScript⟩, rfl, rfl⟩
  refine ⟨{ value := UInt64.ofNat (natOfBytesLE value), field := script }, ⟨count, ?_, ?_⟩, rfl⟩
  · rw [hScript]
    exact hCount
  · rw [exists_word64 hValue, List.append_nil]

/- A transaction, and whether it touches what is watched. -/
theorem readsOnly_parseTxShape :
    ReadsOnly (parseTxShape watched isCoinbase)
      (transactionLayout.via (touchesWatched watched isCoinbase)) := by
  unfold parseTxShape
  apply ((readsOnly_take 4).bind fun _ => readsOnly_readVarint.bind fun inputCount =>
    (readsOnly_check _ _).bind fun _ =>
    ((readsOnly_inputTouches watched isCoinbase).many inputCount.toNat).bind fun inputs =>
    readsOnly_readVarint.bind fun outputCount => (readsOnly_check _ _).bind fun _ =>
    ((readsOnly_outputTouches watched).many outputCount.toNat).bind fun outputs =>
    (readsOnly_take 4).bind fun _ => ReadsOnly.of_readsAs (ReadsAs.pure _)).imp
  rintro value bytes
    ⟨version, _, _, rfl, ⟨rfl, hVersion⟩, inputCount, countBytes, _, rfl, hInputCount, _, _, _, rfl,
      ⟨-, rfl⟩, inputs, inputBytes, _, rfl, ⟨hInputLength, hInputs⟩, outputCount, countBytes', _,
      rfl, hOutputCount, _, _, _, rfl, ⟨-, rfl⟩, outputs, outputBytes, _, rfl,
      ⟨hOutputLength, hOutputs⟩, locktime, _, _, rfl, ⟨rfl, hLocktime⟩, rfl, rfl⟩
  rcases Layout.list_via hInputs with ⟨ins, hIns, rfl⟩
  rcases Layout.list_via hOutputs with ⟨outs, hOuts, rfl⟩
  rw [List.length_map] at hInputLength hOutputLength
  refine
    ⟨{ version := UInt32.ofNat (natOfBytesLE version)
       inputs := ins
       outputs := outs
       locktime := UInt32.ofNat (natOfBytesLE locktime) },
      ⟨countBytes, inputBytes, countBytes', outputBytes, ?_, hIns, ?_, hOuts, ?_⟩, ?_⟩
  · rw [hInputLength]
    exact hInputCount
  · rw [hOutputLength]
    exact hOutputCount
  · rw [exists_word32 hVersion, exists_word32 hLocktime]
    simp
  · unfold touchesWatched
    rw [List.any_map, List.any_map]
    cases isCoinbase with
    | true => simp
    | false => simp [Function.comp_def]

--- Blocks

/- The bytes of one transaction. -/
def Spells (bytes : List UInt8) : Prop := ∃ raw, transactionLayout raw bytes

/- The bytes of a transaction that touches what is watched. -/
def Touches (watched : Watched) (isCoinbase : Bool) (bytes : List UInt8) : Prop :=
  ∃ raw, transactionLayout raw bytes ∧ touchesWatched watched isCoinbase raw = true

/- A block is a header, a count and the bytes of that many transactions. -/
def BlockHolds (block : List UInt8) (raws : List (List UInt8)) : Prop :=
  ∃ header count,
    block = header ++ (count ++ raws.flatten) ∧ header.length = 80 ∧
      countLayout raws.length count ∧
      ∀ raw ∈ raws, Spells raw

/- A transaction by its bytes. -/
def rawLayout : Layout (List UInt8) :=
  fun raw bytes => raw = bytes ∧ Spells bytes

theorem rawLayout_unique : rawLayout.Unique := by
  intro raw raw' piece piece' tail tail' hPiece hPiece' hSame
  rcases hPiece with ⟨rfl, tx, hTx⟩
  rcases hPiece' with ⟨rfl, tx', hTx'⟩
  have hPieces := (transactionLayout_unique _ _ _ _ _ _ hTx hTx' hSame).2
  exact ⟨hPieces, hPieces⟩

theorem rawLayout_list {raws : List (List UInt8)} (hSpells : ∀ raw ∈ raws, Spells raw) :
    rawLayout.list raws raws.flatten := by
  induction raws with
  | nil => rfl
  | cons raw raws ih =>
    rw [List.forall_mem_cons] at hSpells
    exact ⟨raw, raws.flatten, rfl, ⟨rfl, hSpells.1⟩, ih hSpells.2⟩

/- The bytes of a block hold one list of transactions. -/
theorem BlockHolds.unique {block : List UInt8} {raws raws' : List (List UInt8)}
    (hHolds : BlockHolds block raws) (hHolds' : BlockHolds block raws') : raws = raws' := by
  rcases hHolds with ⟨header, count, rfl, hHeader, hCount, hRaws⟩
  rcases hHolds' with ⟨header', count', hSame, hHeader', hCount', hRaws'⟩
  rcases List.append_inj hSame (hHeader.trans hHeader'.symm) with ⟨-, hSame⟩
  rcases countLayout_unique _ _ _ _ _ _ hCount hCount' hSame with ⟨hLength, rfl⟩
  rw [List.append_cancel_left_eq] at hSame
  have hFlat : raws.flatten ++ [] = raws'.flatten ++ [] := by rw [hSame]
  exact (rawLayout_unique.list hLength (rawLayout_list hRaws) (rawLayout_list hRaws') hFlat).1

/- A read transaction holds its bytes, and its flag tells whether these touch what is watched. -/
structure ReadTransaction.Sound (watched : Watched) (isCoinbase : Bool) (read : ReadTransaction) :
    Prop where
  spells : Spells read.raw
  touches_iff : read.touches = true ↔ Touches watched isCoinbase read.raw

theorem readsOnly_readTransaction :
    ReadsOnly (readTransaction watched isCoinbase)
      (fun read bytes => read.raw = bytes ∧ read.Sound watched isCoinbase) := by
  intro bytes start read stop hStart hRead
  unfold readTransaction at hRead
  split at hRead
  · cases hRead
  · rename_i touches stop' hShape
    cases hRead
    rcases readsOnly_parseTxShape watched isCoinbase bytes start touches stop hStart hShape with
      ⟨piece, hPrefix, ⟨raw, hRaw, rfl⟩, rfl⟩
    have hPiece : (bytes.drop start).take (start + piece.length - start) = piece := by
      rw [Nat.add_sub_cancel_left]
      exact (List.prefix_iff_eq_take.mp hPrefix).symm
    rw [hPiece]
    refine ⟨piece, hPrefix, ⟨rfl, ⟨⟨raw, hRaw⟩, ?_⟩⟩, rfl⟩
    constructor
    · intro hTouches
      exact ⟨raw, hRaw, hTouches⟩
    · rintro ⟨raw', hRaw', hTouches⟩
      have hSame := (transactionLayout_unique raw raw' piece piece [] [] hRaw hRaw' rfl).1
      rw [← hSame] at hTouches
      exact hTouches

/- The transactions of a block behind its header. -/
theorem readsOnly_readTransactions :
    ReadsOnly (readTransactions watched)
      (fun reads bytes => ∃ coinbase rest count,
          reads = coinbase :: rest ∧ coinbase.Sound watched true ∧
            (∀ read ∈ rest, read.Sound watched false) ∧
            countLayout reads.length count ∧
            bytes = count ++ (reads.map ReadTransaction.raw).flatten) := by
  unfold readTransactions
  apply (readsOnly_readVarint.bind fun count => (readsOnly_check _ _).bind fun _ =>
    (readsOnly_readTransaction watched true).bind fun coinbase =>
    ((readsOnly_readTransaction watched false).many (count.toNat - 1)).bind fun rest =>
    ReadsOnly.of_readsAs (ReadsAs.pure (coinbase :: rest))).imp
  rintro reads bytes
    ⟨count, countBytes, _, rfl, hCount, _, _, _, rfl, ⟨hBounds, rfl⟩, coinbase, _, _, rfl,
      ⟨rfl, hCoinbase⟩, rest, restBytes, _, rfl, ⟨hLength, hRest⟩, rfl, rfl⟩
  rcases Layout.list_of_kept (fun _ _ hRead => hRead) hRest with ⟨rfl, hSound⟩
  refine ⟨coinbase, rest, countBytes, rfl, hCoinbase, hSound, ?_, ?_⟩
  · have hPositive : count.toNat ≠ 0 := by
      intro hZero
      have hCountZero : count = 0 := UInt64.toNat_inj.mp hZero
      simp [hCountZero] at hBounds
    have hSum : rest.length + 1 = count.toNat := by omega
    rw [List.length_cons, hSum]
    exact hCount
  · simp

end OptnWallet.Neutrino
