import OptnWallet.Core.Rpa
import OptnWallet.Core.Tx.Layout

/-
  The two transaction parsers read the same raw transactions and report the same of them, as far
  as both report it.

  Main declarations:
    * `Rpa.parseTransaction_eq_ok_iff`
    * `Rpa.parsers_agree`
    * `Rpa.reports_differ`
-/

--- What Parsing Accepts

namespace OptnWallet

open ByteFormat

/- What `parseTransaction` reports of an input. -/
def RawInput.parsed (raw : RawInput) : Rpa.ParsedInput :=
  (hexString raw.txid.toList.reverse, raw.vout, raw.scriptSig)

def RawOutput.parsed (raw : RawOutput) : Rpa.ParsedOutput := (raw.value, raw.field)

namespace Rpa

theorem readsAs_varint : ReadsAs varint (fun value bytes => bytes = OptnWallet.varint value) :=
  readsAs_minimalVarint _ _

/- Bounds checks and slices amount to taking the fields. -/
theorem parseInput_eq_takes :
    parseInput = (do
        let txid ← Reader.take truncated 32
        let vout ← Reader.take truncated 4
        let len ← varint
        let scriptSig ← Reader.take truncated len.toNat
        let _ ← Reader.take truncated 4
        pure (hexString txid.reverse, UInt32.ofNat (natOfBytesLE vout), scriptSig)) := by
  unfold parseInput
  refine (Reader.need_peek_peek_advance truncated 32 4 _).trans ?_
  simp only [Reader.need_peek_need_advance]

theorem parseInput_eq : parseInput = RawInput.parsed <$> readInput varint := by
  rw [parseInput_eq_takes, Reader.take_eq_map_takeArray _ 32]
  unfold readInput takeU32
  simp only [map_eq_pure_bind, bind_assoc, pure_bind]
  rfl

theorem parseOutput_eq : parseOutput = RawOutput.parsed <$> readOutput varint := by
  unfold parseOutput readOutput takeU64
  simp only [Reader.need_peek_advance, map_eq_pure_bind, bind_assoc, pure_bind]
  rfl

theorem parseFields_eq :
    parseFields = (fun found => (found.2.1, found.2.2.1)) <$> readTransaction varint parseInput
        parseOutput := by
  unfold parseFields readTransaction takeU32
  simp only [Reader.need_advance, map_eq_pure_bind, bind_assoc, pure_bind]

theorem readsAs_parseInput :
    ReadsAs parseInput
      (fun value bytes => ∃ raw :
        RawInput, (raw.InRange ∧ raw.parsed = value) ∧ bytes = raw.bytes) := by
  rw [parseInput_eq]
  exact (readsAs_readInput readsAs_varint).mapSpelled _

theorem readsAs_parseOutput :
    ReadsAs parseOutput
      (fun value bytes => ∃ raw :
        RawOutput, (raw.InRange ∧ raw.parsed = value) ∧ bytes = raw.bytes) := by
  rw [parseOutput_eq]
  exact (readsAs_readOutput readsAs_varint).mapSpelled _

/- Parsing accepts exactly the bytes of raw transactions. -/
theorem parseTransaction_eq_ok_iff {bytes : List UInt8} {inputs : List ParsedInput}
    {outputs : List ParsedOutput} :
    parseTransaction bytes = .ok (inputs, outputs) ↔
    ∃ raw : RawTransaction,
      raw.InRange ∧ inputs = raw.inputs.map RawInput.parsed ∧
        outputs = raw.outputs.map RawOutput.parsed ∧
        bytes = raw.bytes := by
  have hReads :=
    (readsAs_readTransaction readsAs_varint readsAs_parseInput readsAs_parseOutput).map
      (fun found => (found.2.1, found.2.2.1))
  rw [← parseFields_eq] at hReads
  unfold parseTransaction
  rw [hReads.readAll_eq_ok_iff]
  simp only [List.forall₂_and_left]
  constructor
  · rintro ⟨⟨version, _, _, locktime⟩, hFound, raw, hVersion, ⟨hInRange, hIns⟩, hInCount,
      ⟨hOutRange, hOuts⟩, hOutCount, hLocktime, rfl⟩
    cases hFound
    rw [← List.forall₂_map_left_iff, List.forall₂_eq_eq_eq] at hIns hOuts
    exact ⟨raw, ⟨hInCount, hInRange, hOutCount, hOutRange⟩, hIns.symm, hOuts.symm, rfl⟩
  · rintro ⟨raw, hRange, rfl, rfl, rfl⟩
    refine ⟨(raw.version, raw.inputs.map RawInput.parsed, raw.outputs.map RawOutput.parsed,
        raw.locktime), rfl, raw, rfl, ⟨hRange.inputs, ?_⟩, hRange.input_count, ⟨hRange.outputs, ?_⟩,
      hRange.output_count, rfl, rfl⟩
    · exact List.forall₂_map_right_iff.mpr (List.forall₂_same.mpr fun _ _ => rfl)
    · exact List.forall₂_map_right_iff.mpr (List.forall₂_same.mpr fun _ _ => rfl)

--- Agreement

/- The token prefix that a field starts with decodes. -/
def PrefixDecodes (field : List UInt8) : Prop :=
  field.head? = some prefixToken → ∃ token used, TokenData.decodePrefix field = .ok (token, used)

/- One outpoint: the txids are each other's reverse. -/
def SameInput (decoded : Vector UInt8 32 × UInt32 × UInt32) (parsed : ParsedInput) : Prop :=
  parsed.1 = hexString decoded.1.toList.reverse ∧ parsed.2.1 = decoded.2.1

/-
  One value, and one field: its token prefix decodes to the token in front of the script, or it is
  the script.
-/
def SameOutput (decoded : DecodedOutput) (parsed : ParsedOutput) : Prop :=
  decoded.value = parsed.1 ∧
    if parsed.2.head? = some prefixToken then ∃ token used,
        TokenData.decodePrefix parsed.2 = .ok (token, used) ∧ decoded.token = some token ∧
          parsed.2 = parsed.2.take used ++ decoded.scriptPubkey
    else decoded.token = none ∧ decoded.scriptPubkey = parsed.2

theorem exists_decoded_iff (raw : RawOutput) :
    (∃ decoded, raw.decoded = .ok decoded) ↔ PrefixDecodes raw.field := by
  unfold RawOutput.decoded splitField PrefixDecodes
  by_cases hPrefix : raw.field.head? = some prefixToken
  · rw [if_pos hPrefix]
    cases TokenData.decodePrefix raw.field with
    | error error => simp [hPrefix]
    | ok found => exact iff_of_true ⟨_, rfl⟩ (fun _ => ⟨found.1, found.2, rfl⟩)
  · rw [if_neg hPrefix]
    exact iff_of_true ⟨_, rfl⟩ (fun hSome => absurd hSome hPrefix)

theorem sameOutput_of_decoded {raw : RawOutput} {decoded : DecodedOutput}
    (hDecoded : raw.decoded = .ok decoded) : SameOutput decoded raw.parsed := by
  unfold RawOutput.decoded splitField at hDecoded
  unfold SameOutput RawOutput.parsed
  dsimp only
  by_cases hPrefix : raw.field.head? = some prefixToken
  · rw [if_pos hPrefix] at hDecoded
    rw [if_pos hPrefix]
    cases hRead : TokenData.decodePrefix raw.field with
    | error error =>
      rw [hRead] at hDecoded
      cases hDecoded
    | ok found =>
      rw [hRead] at hDecoded
      cases hDecoded
      exact ⟨rfl, found.1, found.2, rfl, rfl, (List.take_append_drop found.2 raw.field).symm⟩
  · rw [if_neg hPrefix] at hDecoded
    rw [if_neg hPrefix]
    cases hDecoded
    exact ⟨rfl, rfl, rfl⟩

/- The parsers accept the same bytes, token prefixes aside. -/
theorem exists_decode_iff (bytes : List UInt8) :
    (∃ decoded, decode bytes = .ok decoded) ↔
    ∃ inputs outputs,
      parseTransaction bytes = .ok (inputs, outputs) ∧
        ∀ output ∈ outputs, PrefixDecodes output.2 := by
  simp only [decode_eq_ok_iff, parseTransaction_eq_ok_iff]
  constructor
  · rintro ⟨decoded, raw, hRange, hDecodes, rfl⟩
    refine ⟨_, _, ⟨raw, hRange, rfl, rfl, rfl⟩, ?_⟩
    intro output hMem
    rcases List.mem_map.mp hMem with ⟨source, hSource, rfl⟩
    apply (exists_decoded_iff source).mp
    exact exists_forall₂_iff.mp ⟨_, hDecodes.outputs⟩ source hSource
  · rintro ⟨_, _, ⟨raw, hRange, rfl, rfl, rfl⟩, hPrefixes⟩
    have hOutputs :
        ∃ found,
          List.Forall₂
            (fun (output : RawOutput) found => output.decoded = .ok found)
            raw.outputs found := by
      apply exists_forall₂_iff.mpr
      intro output hMem
      apply (exists_decoded_iff output).mpr
      exact hPrefixes output.parsed (List.mem_map_of_mem hMem)
    rcases hOutputs with ⟨found, hFound⟩
    exact
      ⟨{ version := raw.version
         inputs := raw.inputs.map RawInput.decoded
         outputs := found
         locktime := raw.locktime }, raw, hRange, ⟨rfl, rfl, hFound, rfl⟩, rfl⟩

/-
  Decoding succeeds exactly when parsing does and the token prefixes decode, and then both report
  the same outpoints, the same values and the same locking fields.
-/
theorem parsers_agree (bytes : List UInt8) :
    ((∃ decoded, decode bytes = .ok decoded) ↔ ∃ inputs outputs,
        parseTransaction bytes = .ok (inputs, outputs) ∧ ∀ output ∈ outputs, PrefixDecodes output.2)
      ∧
    ∀ decoded inputs outputs,
      decode bytes = .ok decoded → parseTransaction bytes = .ok (inputs, outputs) →
        List.Forall₂ SameInput decoded.inputs inputs ∧
          List.Forall₂ SameOutput decoded.outputs outputs := by
  refine ⟨exists_decode_iff bytes, ?_⟩
  intro decoded inputs outputs hDecode hParse
  rcases decode_eq_ok_iff.mp hDecode with ⟨raw, hRange, hDecodes, hBytes⟩
  rcases parseTransaction_eq_ok_iff.mp hParse with ⟨raw', hRange', rfl, rfl, hBytes'⟩
  have hSame : raw.bytes ++ [] = raw'.bytes ++ [] := by rw [← hBytes, hBytes']
  cases RawTransaction.unique hRange hRange' hSame
  constructor
  · rw [hDecodes.inputs, List.forall₂_map_left_iff, List.forall₂_map_right_iff]
    exact List.forall₂_same.mpr fun _ _ => ⟨rfl, rfl⟩
  · rw [List.forall₂_map_right_iff]
    apply List.Forall₂.flip
    exact hDecodes.outputs.imp fun _ _ hDecoded => sameOutput_of_decoded hDecoded

--- What Only One Of Them Reports

/- One input with an unlocking script and one output with a locking field. -/
def smallTransaction (script field : List UInt8) : RawTransaction :=
  { version := 2
    inputs := [{ txid := Vector.replicate 32 7, vout := 0, scriptSig := script, sequence := 0 }]
    outputs := [{ value := 1000, field }]
    locktime := 0 }

/- A fungible amount of 42, in a varint of one byte or, with the same value, of three. -/
def tokenField (amount : List UInt8) : List UInt8 :=
  prefixToken :: (List.replicate 32 9 ++ hasAmount :: amount)

def smallDecoded : Decoded :=
  { version := 2
    inputs := [(Vector.replicate 32 7, 0, 0)]
    outputs :=
      [{ value := 1000
         scriptPubkey := []
         token := some { category := Vector.replicate 32 9, amount := 42, nft := none } }]
    locktime := 0 }

/-
  Neither the unlocking scripts nor the bytes of a token prefix can be read off what `decode`
  reports.
-/
theorem reports_differ :
    (¬ ∃ scripts : Decoded → List (List UInt8), ∀ bytes decoded inputs outputs,
        decode bytes = .ok decoded → parseTransaction bytes = .ok (inputs, outputs) →
          scripts decoded = inputs.map (fun input => input.2.2)) ∧
    ¬ ∃ fields : Decoded → List (List UInt8), ∀ bytes decoded inputs outputs, decode bytes = .ok
      decoded → parseTransaction bytes = .ok (inputs, outputs) → fields decoded = outputs.map
      (fun output => output.2) := by
  have hDecode (script amount : List UInt8) (hScript : script = [1] ∨ script = [2])
      (hAmount : amount = [42] ∨ amount = [0xfd, 42, 0]) :
      OptnWallet.decode (smallTransaction script (tokenField amount)).bytes = .ok smallDecoded := by
    rcases hScript with rfl | rfl <;>
      rcases hAmount with rfl | rfl <;>
        decide +kernel
  have hParse (script amount : List UInt8) (hScript : script = [1] ∨ script = [2])
      (hAmount : amount = [42] ∨ amount = [0xfd, 42, 0]) :
      parseTransaction (smallTransaction script (tokenField amount)).bytes = .ok
          ((smallTransaction script (tokenField amount)).inputs.map RawInput.parsed,
            (smallTransaction script (tokenField amount)).outputs.map RawOutput.parsed) := by
    rcases hScript with rfl | rfl <;>
      rcases hAmount with rfl | rfl <;>
        decide +kernel
  constructor
  · rintro ⟨scripts, hScripts⟩
    have hOne :=
      hScripts _ _ _ _ (hDecode [1] [42] (.inl rfl) (.inl rfl))
        (hParse [1] [42] (.inl rfl) (.inl rfl))
    have hTwo :=
      hScripts _ _ _ _ (hDecode [2] [42] (.inr rfl) (.inl rfl))
        (hParse [2] [42] (.inr rfl) (.inl rfl))
    rw [hOne] at hTwo
    revert hTwo
    decide
  · rintro ⟨fields, hFields⟩
    have hOne :=
      hFields _ _ _ _ (hDecode [1] [42] (.inl rfl) (.inl rfl))
        (hParse [1] [42] (.inl rfl) (.inl rfl))
    have hTwo :=
      hFields _ _ _ _ (hDecode [1] [0xfd, 42, 0] (.inl rfl) (.inr rfl))
        (hParse [1] [0xfd, 42, 0] (.inl rfl) (.inr rfl))
    rw [hOne] at hTwo
    revert hTwo
    decide +kernel

end Rpa

end OptnWallet
