import OptnWallet.Core.Tx.Layout

/-
  What is serialized is decoded again, and neither a proper prefix nor an extension of it is.

  Main declarations:
    * `Transaction.serialize_eq`
    * `Transaction.DecodesTo`
    * `Transaction.serialize_roundTrip`
-/

--- Serialized Transactions As Raw Ones

namespace OptnWallet

open ByteFormat

namespace Transaction

/- The inputs from index `i` on, with their scripts. -/
def rawInputs (sequence : UInt32) (scriptSigs : List (List UInt8)) : Nat → List Utxo → List RawInput
  | _, [] => []
  | i, input :: inputs =>
    { txid := input.txid, vout := input.vout, scriptSig := (scriptSigs[i]?).getD [], sequence } ::
      rawInputs sequence scriptSigs (i + 1) inputs

def raw (tx : Transaction) (scriptSigs : List (List UInt8)) : RawTransaction :=
  { version := tx.version
    inputs := rawInputs tx.sequence scriptSigs 0 tx.inputs
    outputs :=
      tx.outputs.map
        (fun output => { value := output.value, field := output.lockingField })
    locktime := tx.locktime }

variable (sequence : UInt32) (scriptSigs : List (List UInt8)) (i : Nat) (inputs : List Utxo)

theorem serializeInputs_eq :
    serializeInputs sequence scriptSigs i inputs =
      (rawInputs sequence scriptSigs i inputs).flatMap RawInput.bytes := by
  induction inputs generalizing i with
  | nil => rfl
  | cons input inputs ih =>
    unfold serializeInputs rawInputs
    rw [ih, List.flatMap_cons]
    simp [RawInput.bytes]

theorem length_rawInputs : (rawInputs sequence scriptSigs i inputs).length = inputs.length := by
  induction inputs generalizing i with
  | nil => rfl
  | cons input inputs ih =>
    unfold rawInputs
    rw [List.length_cons, ih, List.length_cons]

theorem map_decoded_rawInputs :
    (rawInputs sequence scriptSigs i inputs).map RawInput.decoded =
      inputs.map (fun input => (input.txid, input.vout, sequence)) := by
  induction inputs generalizing i with
  | nil => rfl
  | cons input inputs ih =>
    unfold rawInputs
    rw [List.map_cons, ih]
    rfl

theorem serializeOutput_eq :
    serializeOutput = fun output => (RawOutput.mk output.value output.lockingField).bytes := by
  funext output
  unfold serializeOutput RawOutput.bytes
  exact List.append_assoc _ _ _

theorem serialize_eq (tx : Transaction) (scriptSigs : List (List UInt8)) :
    tx.serialize scriptSigs = (tx.raw scriptSigs).bytes := by
  unfold serialize RawTransaction.bytes raw
  dsimp only
  rw [serializeInputs_eq, length_rawInputs, List.length_map, List.flatMap_map, serializeOutput_eq]
  simp only [List.append_assoc]

--- Round Trips

/- Every count and length fits its varint. -/
structure InRange (tx : Transaction) (scriptSigs : List (List UInt8)) : Prop where
  input_count : tx.inputs.length < 2 ^ 64
  scripts : ∀ sig ∈ scriptSigs, sig.length < 2 ^ 64
  output_count : tx.outputs.length < 2 ^ 64
  fields : ∀ output ∈ tx.outputs, output.lockingField.length < 2 ^ 64

/-
  Prefixes are what some token encodes to, and a script without a prefix does not look like one.
-/
def PrefixesEncoded (tx : Transaction) : Prop :=
  ∀ output ∈ tx.outputs,
    match output.tokenPrefix with
    | some bytes => ∃ token : TokenData, token.encodePrefix = .ok bytes
    | none => output.scriptPubkey.head? ≠ some prefixToken

/- An output comes back with the token of its prefix. -/
structure OutputDecodesTo (output : Output) (found : DecodedOutput) : Prop where
  value : found.value = output.value
  script : found.scriptPubkey = output.scriptPubkey
  bare : output.tokenPrefix = none → found.token = none
  token :
    ∀ bytes token,
    output.tokenPrefix = some bytes → TokenData.encodePrefix token = .ok bytes →
      found.token = some token

/- Everything but the unlocking scripts comes back. -/
structure DecodesTo (tx : Transaction) (decoded : Decoded) : Prop where
  version : decoded.version = tx.version
  inputs : decoded.inputs = tx.inputs.map (fun input => (input.txid, input.vout, tx.sequence))
  outputs : List.Forall₂ OutputDecodesTo tx.outputs decoded.outputs
  locktime : decoded.locktime = tx.locktime

theorem mem_rawInputs_inRange {sequence : UInt32} {scriptSigs : List (List UInt8)}
    (hScripts : ∀ sig ∈ scriptSigs, sig.length < 2 ^ 64) {i : Nat} {inputs : List Utxo} :
    ∀ input ∈ rawInputs sequence scriptSigs i inputs, input.InRange := by
  induction inputs generalizing i with
  | nil =>
    intro input hMem
    cases hMem
  | cons first inputs ih =>
    intro input hMem
    unfold rawInputs at hMem
    rcases List.mem_cons.mp hMem with rfl | hMem
    · unfold RawInput.InRange
      dsimp only
      cases hSig : scriptSigs[i]? with
      | none => decide
      | some sig => exact hScripts sig (List.mem_of_getElem? hSig)
    · exact ih input hMem

variable {tx : Transaction}

theorem raw_inRange {scriptSigs : List (List UInt8)} (hRange : tx.InRange scriptSigs) :
    (tx.raw scriptSigs).InRange := by
  constructor
  · unfold raw
    dsimp only
    rw [length_rawInputs]
    exact hRange.input_count
  · exact mem_rawInputs_inRange hRange.scripts
  · unfold raw
    dsimp only
    rw [List.length_map]
    exact hRange.output_count
  · intro output hMem
    rcases List.mem_map.mp hMem with ⟨source, hSource, rfl⟩
    exact hRange.fields source hSource

/- The prefix and the script of a field come apart again. -/
theorem exists_decoded_output (hPrefixes : tx.PrefixesEncoded) {output : Output}
    (hMem : output ∈ tx.outputs) :
    ∃ found,
    (RawOutput.mk output.value output.lockingField).decoded = .ok found ∧
      OutputDecodesTo output found := by
  have hEncoded := hPrefixes output hMem
  unfold RawOutput.decoded splitField Output.lockingField
  dsimp only
  cases hPrefix : output.tokenPrefix with
  | none =>
    rw [hPrefix] at hEncoded
    dsimp only
    rw [if_neg hEncoded]
    refine ⟨_, rfl, rfl, rfl, fun _ => rfl, ?_⟩
    intro bytes token hSome
    rw [hPrefix] at hSome
    cases hSome
  | some bytes =>
    rw [hPrefix] at hEncoded
    rcases hEncoded with ⟨token, hToken⟩
    dsimp only
    rw [TokenData.decodePrefix_encodePrefix hToken, if_pos (TokenData.head?_encodePrefix hToken _)]
    refine ⟨_, rfl, rfl, List.drop_left, ?_, ?_⟩
    · intro hNone
      rw [hPrefix] at hNone
      cases hNone
    · intro bytes' token' hSome hToken'
      rw [hPrefix] at hSome
      cases hSome
      rw [TokenData.encodePrefix_injective hToken hToken']

theorem exists_decoded (hPrefixes : tx.PrefixesEncoded) (scriptSigs : List (List UInt8)) :
    ∃ decoded, (tx.raw scriptSigs).Decodes decoded ∧ tx.DecodesTo decoded := by
  have hOutputs :
      ∃ found,
        List.Forall₂
            (fun output found =>
              (RawOutput.mk output.value output.lockingField).decoded = .ok found ∧
                OutputDecodesTo output found)
            tx.outputs found :=
    exists_forall₂_iff.mpr fun output hMem => exists_decoded_output hPrefixes hMem
  rcases hOutputs with ⟨found, hFound⟩
  refine
    ⟨{ version := tx.version
       inputs := tx.inputs.map (fun input => (input.txid, input.vout, tx.sequence))
       outputs := found
       locktime := tx.locktime }, ?_, ?_⟩
  · refine ⟨rfl, (map_decoded_rawInputs _ _ _ _).symm, ?_, rfl⟩
    apply List.forall₂_map_left_iff.mpr
    exact hFound.imp fun _ _ hBoth => hBoth.1
  · exact ⟨rfl, rfl, hFound.imp fun _ _ hBoth => hBoth.2, rfl⟩

/-
  A serialized transaction decodes to itself, up to its unlocking scripts; cut off or extended, it
  does not decode.
-/
theorem serialize_roundTrip (tx : Transaction) (scriptSigs : List (List UInt8))
    (hRange : tx.InRange scriptSigs) (hPrefixes : tx.PrefixesEncoded) :
    (∃ decoded, decode (tx.serialize scriptSigs) = .ok decoded ∧ tx.DecodesTo decoded) ∧
    (∀ bytes decoded,
        bytes <+: tx.serialize scriptSigs → bytes ≠ tx.serialize scriptSigs →
          decode bytes ≠ .ok decoded) ∧
    ∀ tail decoded, tail ≠ [] → decode (tx.serialize scriptSigs ++ tail) ≠ .ok decoded := by
  rw [serialize_eq]
  have hRaw := raw_inRange hRange
  refine ⟨?_, ?_, ?_⟩
  · rcases exists_decoded hPrefixes scriptSigs with ⟨decoded, hDecodes, hTo⟩
    exact ⟨decoded, decode_eq_ok_iff.mpr ⟨_, hRaw, hDecodes, rfl⟩, hTo⟩
  · intro bytes decoded hPrefix hNe hDecode
    rcases decode_eq_ok_iff.mp hDecode with ⟨raw', hRaw', -, rfl⟩
    rcases hPrefix with ⟨tail, hTail⟩
    rw [← List.append_nil (tx.raw scriptSigs).bytes] at hTail
    rw [RawTransaction.unique hRaw' hRaw hTail] at hNe
    exact hNe rfl
  · intro tail decoded hNe hDecode
    rcases decode_eq_ok_iff.mp hDecode with ⟨raw', hRaw', -, hBytes⟩
    rw [← List.append_nil raw'.bytes] at hBytes
    rw [RawTransaction.unique hRaw hRaw' hBytes, List.append_cancel_left_eq] at hBytes
    exact hNe hBytes

--- A Token Transaction

/- Forty-two units of a fungible token. -/
def tokenPrefixBytes : List UInt8 := prefixToken :: (List.replicate 32 9 ++ [hasAmount, 42])

def tokenTransaction : Transaction :=
  { version := 2
    inputs := [{ txid := Vector.replicate 32 7, vout := 0, value := 100000, scriptPubkey := [] }]
    outputs :=
      [{ value := 1000, scriptPubkey := [0x51], tokenPrefix := some tokenPrefixBytes },
        { value := 90000, scriptPubkey := [0x52], tokenPrefix := none }]
    locktime := 0
    sequence := 0xffffffff }

theorem tokenTransaction_inRange (sig : UInt8) : tokenTransaction.InRange [[sig]] := by
  constructor
  · decide
  · intro script hMem
    rw [List.mem_singleton] at hMem
    subst hMem
    rw [List.length_singleton]
    decide
  · decide
  · decide

theorem tokenTransaction_prefixesEncoded : tokenTransaction.PrefixesEncoded := by
  intro output hMem
  rcases List.mem_cons.mp hMem with rfl | hMem
  · refine ⟨{ category := Vector.replicate 32 9, amount := 42, nft := none }, ?_⟩
    decide +kernel
  · rw [List.mem_singleton] at hMem
    subst hMem
    decide

theorem serialize_roundTrip_token :
    (∃ decoded,
        decode (tokenTransaction.serialize [[1]]) = .ok decoded ∧
          tokenTransaction.DecodesTo decoded) ∧
    (∀ bytes decoded,
        bytes <+: tokenTransaction.serialize [[1]] → bytes ≠ tokenTransaction.serialize [[1]] →
          decode bytes ≠ .ok decoded) ∧
    ∀ tail decoded, tail ≠ [] → decode (tokenTransaction.serialize [[1]] ++ tail) ≠ .ok decoded :=
  serialize_roundTrip tokenTransaction [[1]] (tokenTransaction_inRange 1)
    tokenTransaction_prefixesEncoded

/-
  Two unlocking scripts decode to the same, so that nothing reads them off what `decode` reports.
-/
theorem decode_forgets_scripts :
    ¬ ∃ unlockingScripts : Decoded → List (List UInt8), ∀ tx scriptSigs decoded, InRange tx
      scriptSigs → PrefixesEncoded tx → scriptSigs.length = tx.inputs.length → decode
      (tx.serialize scriptSigs) = .ok decoded → unlockingScripts decoded = scriptSigs := by
  rintro ⟨unlockingScripts, hScripts⟩
  have hDecoded :
      ∃ decoded,
      decode (tokenTransaction.serialize [[1]]) = .ok decoded ∧
        decode (tokenTransaction.serialize [[2]]) = .ok decoded := by
    refine
      ⟨{ version := 2
         inputs := [(Vector.replicate 32 7, 0, 0xffffffff)]
         outputs :=
          [{ value := 1000
             scriptPubkey := [0x51]
             token := some { category := Vector.replicate 32 9, amount := 42, nft := none } },
            { value := 90000, scriptPubkey := [0x52], token := none }]
         locktime := 0 }, ?_, ?_⟩
    · decide +kernel
    · decide +kernel
  rcases hDecoded with ⟨decoded, hFirst, hSecond⟩
  have hOne :=
    hScripts _ _ _ (tokenTransaction_inRange 1) tokenTransaction_prefixesEncoded rfl hFirst
  have hTwo :=
    hScripts _ _ _ (tokenTransaction_inRange 2) tokenTransaction_prefixesEncoded rfl hSecond
  rw [hOne] at hTwo
  revert hTwo
  decide

end Transaction

end OptnWallet
