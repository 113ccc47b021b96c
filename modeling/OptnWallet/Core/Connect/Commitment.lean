import OptnWallet.Core.Connect
import OptnWallet.Core.WalletProjection.Projected
import OptnWallet.Library.UniqueReading

/-
  What a connector signature commits to.  Equal serializations have equal fields, but an output
  does not tell token data from a locking bytecode that starts with the same bytes.

  Main declarations:
    * `Connect.tokenPrefix_unique`
    * `Connect.Preimage.Of`
    * `Connect.Agree` and `Connect.SplitApart`
    * `Connect.serialization_commits_iff`
-/

--- Token Prefixes

namespace OptnWallet.Connect

open StagedUpdate

theorem compact_eq (value : UInt64) : compact value = varint value := by
  rw [varint_eq]
  rfl

theorem Token.flags_eq (token : Token) (data : TokenData) (hAmount : data.amount = token.amount)
    (hNft : data.nft = token.nft) : token.flags = data.bitfield := by
  unfold Token.flags TokenData.bitfield
  rw [hAmount, hNft, UInt8.or_comm]
  congr 1
  cases token.nft with
  | none => rfl
  | some nft =>
    dsimp only
    congr 1
    cases nft.commitment <;> rfl

theorem Token.commitment_eq (token : Token) (data : TokenData) (hNft : data.nft = token.nft) :
    data.commitment = token.commitment := by
  cases hToken : token.nft <;>
    simp [TokenData.commitment, Token.commitment, hNft, hToken]

variable {token : Token} {bytes : List UInt8}

section

variable (hPrefix : tokenPrefix (some token) = .ok bytes)
include hPrefix

/- A token is encoded as the token data that it stands for. -/
theorem tokenPrefix_some :
    ∃ data : TokenData,
    data.category.toList = token.category ∧ data.amount = token.amount ∧
      data.nft = token.nft ∧
      data.encodePrefix = .ok bytes := by
  unfold tokenPrefix at hPrefix
  dsimp only at hPrefix
  split at hPrefix
  · cases hPrefix
  rename_i hCategory
  split at hPrefix
  · cases hPrefix
  split at hPrefix
  · cases hPrefix
  rename_i hEmpty
  split at hPrefix
  · cases hPrefix
  rename_i hLong
  cases hPrefix
  rw [not_not] at hCategory
  have hData :
      ∃ data : TokenData,
      data.category.toList = token.category ∧ data.amount = token.amount ∧ data.nft = token.nft :=
    ⟨{ category := ⟨token.category.toArray, hCategory⟩
       amount := token.amount
       nft := token.nft }, rfl, rfl, rfl⟩
  rcases hData with ⟨data, hBytes, hAmount, hNft⟩
  refine ⟨data, hBytes, hAmount, hNft, ?_⟩
  have hCommitment := token.commitment_eq data hNft
  have hReverse : data.category.reverse.toList = token.category.reverse := by
    rw [Vector.toList_reverse, hBytes]
  rw [Option.isNone_iff_eq_none, ← hAmount, ← hNft] at hEmpty
  rw [← hCommitment] at hLong
  unfold TokenData.encodePrefix
  rw [if_neg hEmpty, if_neg hLong, hReverse, ← token.flags_eq data hAmount hNft, hCommitment,
    hAmount]
  simp only [compact_eq]
  cases token.commitment <;> rfl

/- The bytes that follow do not change what a prefix says. -/
theorem tokenPrefix_unique {token' : Token} {bytes' tail tail' : List UInt8}
    (hPrefix' : tokenPrefix (some token') = .ok bytes') (hSame : bytes ++ tail = bytes' ++ tail') :
    token = token' ∧ tail = tail' := by
  rcases tokenPrefix_some hPrefix with ⟨data, hCategory, hAmount, hNft, hEncode⟩
  rcases tokenPrefix_some hPrefix' with ⟨data', hCategory', hAmount', hNft', hEncode'⟩
  have hRead := TokenData.decodePrefix_encodePrefix hEncode tail
  rw [hSame, TokenData.decodePrefix_encodePrefix hEncode' tail', Except.ok.injEq, Prod.mk.injEq]
    at hRead
  rcases hRead with ⟨rfl, hLength⟩
  refine ⟨?_, ?_⟩
  · rcases token with ⟨category, amount, nft⟩
    rcases token' with ⟨category', amount', nft'⟩
    dsimp only at *
    rw [← hCategory, ← hCategory', ← hAmount, ← hAmount', ← hNft, ← hNft']
  · exact (List.append_inj hSame hLength.symm).2

/- A token prefix starts with the marker. -/
theorem head?_tokenPrefix (tail : List UInt8) : (bytes ++ tail).head? = some 0xef := by
  rcases tokenPrefix_some hPrefix with ⟨data, -, -, -, hEncode⟩
  exact TokenData.head?_encodePrefix hEncode tail

end

--- Output Fields

namespace Output

/- Token data and locking bytecode, as one counted field. -/
def field (output : Output) : List UInt8 :=
  (tokenPrefix output.token).toOption.getD [] ++ output.lockingBytecode

/- The output as its bytes have it. -/
def raw (output : Output) : RawOutput := { value := output.valueSatoshis, field := output.field }

/- An output that is encoded. -/
structure Encodes (output : Output) : Prop where
  token : ∃ bytes, tokenPrefix output.token = .ok bytes
  range : output.raw.InRange

/- The first carries as locking bytecode what the second carries as a token. -/
def Hides (output output' : Output) : Prop :=
  output.valueSatoshis = output'.valueSatoshis ∧ output.token = none ∧
    ∃ token bytes,
      output'.token = some token ∧ tokenPrefix (some token) = .ok bytes ∧
        output.lockingBytecode = bytes ++ output'.lockingBytecode

/- One output, or one that hides what the other carries. -/
def Aliases (output output' : Output) : Prop :=
  output = output' ∨ output.Hides output' ∨ output'.Hides output

variable {output : Output}

theorem field_none (hToken : output.token = none) : output.field = output.lockingBytecode := by
  unfold field
  rw [hToken]
  rfl

theorem field_some {bytes : List UInt8} (hPrefix : tokenPrefix output.token = .ok bytes) :
    output.field = bytes ++ output.lockingBytecode := by
  unfold field
  rw [hPrefix]
  rfl

theorem Hides.raw_eq {output' : Output} (hHides : output.Hides output') :
    output.raw = output'.raw := by
  rcases hHides with ⟨hValue, hNone, token, bytes, hSome, hPrefix, hScript⟩
  have hField : output.field = output'.field := by
    rw [← hSome] at hPrefix
    rw [field_none hNone, field_some hPrefix, hScript]
  unfold raw
  rw [hValue, hField]

/- Bytes do not tell an output from an alias of it, and they tell it from all others. -/
theorem raw_eq_iff {output' : Output} (hEncodes : output.Encodes) (hEncodes' : output'.Encodes) :
    output.raw = output'.raw ↔ output.Aliases output' := by
  constructor
  · intro hRaw
    unfold raw at hRaw
    rw [RawOutput.mk.injEq] at hRaw
    rcases hRaw with ⟨hValue, hField⟩
    rcases hEncodes.token with ⟨bytes, hBytes⟩
    rcases hEncodes'.token with ⟨bytes', hBytes'⟩
    cases hToken : output.token with
    | none =>
      cases hToken' : output'.token with
      | none =>
        left
        rw [field_none hToken, field_none hToken'] at hField
        rcases output with ⟨value, script, token⟩
        rcases output' with ⟨value', script', token'⟩
        dsimp only at *
        rw [hValue, hField, hToken, hToken']
      | some token' =>
        right
        left
        rw [field_none hToken, field_some hBytes'] at hField
        rw [hToken'] at hBytes'
        exact ⟨hValue, hToken, token', bytes', hToken', hBytes', hField⟩
    | some token =>
      cases hToken' : output'.token with
      | none =>
        right
        right
        rw [field_some hBytes, field_none hToken'] at hField
        rw [hToken] at hBytes
        exact ⟨hValue.symm, hToken', token, bytes, hToken, hBytes, hField.symm⟩
      | some token' =>
        left
        rw [field_some hBytes, field_some hBytes'] at hField
        rw [hToken] at hBytes
        rw [hToken'] at hBytes'
        rcases tokenPrefix_unique hBytes hBytes' hField with ⟨hSame, hScript⟩
        rcases output with ⟨value, script, token⟩
        rcases output' with ⟨value', script', token'⟩
        dsimp only at *
        rw [hValue, hScript, hToken, hToken', hSame]
  · rintro (rfl | hHides | hHides)
    · rfl
    · exact hHides.raw_eq
    · exact hHides.raw_eq.symm

end Output

--- Lists Of Records

theorem encodeOutput_spec {out out' : List UInt8} {output : Output}
    (hEncode : encodeOutput out output = .ok out') :
    output.Encodes ∧ out' = out ++ output.raw.bytes := by
  unfold encodeOutput at hEncode
  split at hEncode
  · cases hEncode
  split at hEncode
  · cases hEncode
  rcases bind_eq_ok_iff.mp hEncode with ⟨bytes, hPrefix, hEncode⟩
  dsimp only at hEncode
  split at hEncode
  · cases hEncode
  rename_i hFits
  cases hEncode
  have hField := Output.field_some hPrefix
  have hBytes :
      bytesLE output.valueSatoshis.toNat 8 ++
          (compact (UInt64.ofNat (bytes.length + output.lockingBytecode.length)) ++
              (bytes ++ output.lockingBytecode)) = output.raw.bytes := by
    unfold Output.raw RawOutput.bytes
    rw [hField, compact_eq, List.length_append]
  refine ⟨⟨⟨bytes, hPrefix⟩, ?_⟩, ?_⟩
  · unfold RawOutput.InRange Output.raw
    rw [hField, List.length_append]
    simp only [List.length_append] at hFits
    unfold maxRequestBytes at hFits
    omega
  · rw [hBytes]

variable {outputs : List Output}

/- By induction over the outputs. -/
theorem encodeOutputsFrom_spec {encoded encoded' : List UInt8} {total total' : Nat}
    (hEncode : encodeOutputsFrom encoded total outputs = .ok (encoded', total')) :
    (∀ output ∈ outputs, output.Encodes) ∧
    encoded' = encoded ++ (outputs.map Output.raw).flatMap RawOutput.bytes := by
  induction outputs generalizing encoded total with
  | nil =>
    cases hEncode
    simp
  | cons output rest ih =>
    unfold encodeOutputsFrom at hEncode
    rcases bind_eq_ok_iff.mp hEncode with ⟨middle, hOutput, hEncode⟩
    split at hEncode
    · cases hEncode
    rcases encodeOutput_spec hOutput with ⟨hFirst, rfl⟩
    rcases ih hEncode with ⟨hRest, rfl⟩
    refine ⟨List.forall_mem_cons.mpr ⟨hFirst, hRest⟩, ?_⟩
    rw [List.map_cons, List.flatMap_cons, List.append_assoc]

def sequenceBytes (input : Input) : List UInt8 := bytesLE input.sequenceNumber.toNat 4

variable {inputs : List Input}

/- By induction over the inputs. -/
theorem encodeInputs_spec {seen : List (List UInt8 × UInt32)} {prevouts sequences : List UInt8}
    (hEncode : encodeInputs seen inputs = .ok (prevouts, sequences)) :
    (∀ input ∈ inputs, input.outpointTransactionHash.length = 32 ∧ input.outpoint ∉ seen) ∧
    (inputs.map Input.outpoint).Nodup ∧
    prevouts = inputs.flatMap Input.prevout ∧
    sequences = inputs.flatMap sequenceBytes := by
  induction inputs generalizing seen prevouts sequences with
  | nil =>
    cases hEncode
    simp
  | cons input rest ih =>
    unfold encodeInputs at hEncode
    split at hEncode
    · cases hEncode
    rename_i hLength
    split at hEncode
    · cases hEncode
    rename_i hSeen
    rcases bind_eq_ok_iff.mp hEncode with ⟨⟨prevouts', sequences'⟩, hRest, hEncode⟩
    cases hEncode
    rw [not_not] at hLength
    rw [List.contains_iff_mem] at hSeen
    rcases ih hRest with ⟨hInputs, hNodup, rfl, rfl⟩
    refine ⟨?_, ?_, rfl, rfl⟩
    · rw [List.forall_mem_cons]
      refine ⟨⟨hLength, hSeen⟩, ?_⟩
      intro input' hMem
      rcases hInputs input' hMem with ⟨hLength', hFresh⟩
      exact ⟨hLength', fun hIn => hFresh (List.mem_cons_of_mem _ hIn)⟩
    · rw [List.map_cons, List.nodup_cons]
      refine ⟨?_, hNodup⟩
      rw [List.mem_map]
      rintro ⟨input', hMem, hSame⟩
      apply (hInputs input' hMem).2
      rw [hSame]
      exact List.mem_cons_self

theorem selfDelimiting_rawOutput : SelfDelimiting RawOutput.InRange RawOutput.bytes := by
  constructor
  · intro raw _ hEmpty
    have hLength := congrArg List.length hEmpty
    unfold RawOutput.bytes at hLength
    rw [List.length_append, length_bytesLE, List.length_nil] at hLength
    omega
  · intro raw raw' hRange hRange' tail tail' hSame
    exact ((readsAs_readOutput readsAs_takeVarint).unique ⟨hRange, rfl⟩ ⟨hRange', rfl⟩ hSame).1

/- Words of four bytes are told by their bytes. -/
theorem bytesLE_injective {word word' : UInt32}
    (hSame : bytesLE word.toNat 4 = bytesLE word'.toNat 4) : word = word' := by
  have hNat := congrArg natOfBytesLE hSame
  rw [natOfBytesLE_bytesLE word.toNat_lt, natOfBytesLE_bytesLE word'.toNat_lt] at hNat
  exact UInt32.toNat_inj.mp hNat

theorem prevout_injective {input input' : Input}
    (hLength : input.outpointTransactionHash.length = 32)
    (hLength' : input'.outpointTransactionHash.length = 32)
    (hSame : input.prevout = input'.prevout) : input.outpoint = input'.outpoint := by
  unfold Input.prevout at hSame
  rcases List.append_inj hSame (by simp [hLength, hLength']) with ⟨hHash, hIndex⟩
  unfold Input.outpoint
  rw [List.reverse_injective hHash, bytesLE_injective hIndex]

--- Preimages

/- The outputs in the bytes that are hashed of them. -/
def outputBytes (outputs : List Output) : List UInt8 :=
  (outputs.map Output.raw).flatMap RawOutput.bytes

/- What is serialized of a context that passed the checks. -/
structure Preimage.Of (preimage : Preimage) (context : SigningContext) : Prop where
  input : context.transaction.inputs[context.inputIndex]? = some preimage.input
  source : context.sourceOutputs[context.inputIndex]? = some preimage.source
  hashes : ∀ input ∈ context.transaction.inputs, input.outpointTransactionHash.length = 32
  distinct : (context.transaction.inputs.map Input.outpoint).Nodup
  encodes : ∀ output ∈ context.sourceOutputs ++ context.transaction.outputs, output.Encodes
  tokenBytes : tokenPrefix preimage.source.token = .ok preimage.tokenBytes
  prevouts : preimage.prevouts = context.transaction.inputs.flatMap Input.prevout
  sequences : preimage.sequences = context.transaction.inputs.flatMap sequenceBytes
  utxos : preimage.utxos = outputBytes context.sourceOutputs
  outputs : preimage.outputs = outputBytes context.transaction.outputs

variable {context : SigningContext} {covered : List UInt8} {mode : UInt8} {preimage : Preimage}

theorem checkedPreimage_spec (hChecked : checkedPreimage context covered mode = .ok preimage) :
    preimage.Of context := by
  unfold checkedPreimage at hChecked
  dsimp only at hChecked
  split at hChecked
  · cases hChecked
  split at hChecked
  · cases hChecked
  split at hChecked
  · rename_i input source hInput hSource
    rcases bind_eq_ok_iff.mp hChecked with ⟨⟨prevouts, sequences⟩, hInputs, hChecked⟩
    rcases bind_eq_ok_iff.mp hChecked with ⟨⟨utxos, available⟩, hUtxos, hChecked⟩
    rcases bind_eq_ok_iff.mp hChecked with ⟨⟨outputs, spent⟩, hOutputs, hChecked⟩
    dsimp only at hChecked
    split at hChecked
    · cases hChecked
    rcases bind_eq_ok_iff.mp hChecked with ⟨tokenBytes, hToken, hChecked⟩
    cases hChecked
    rcases encodeInputs_spec hInputs with ⟨hEach, hDistinct, hPrevouts, hSequences⟩
    rcases encodeOutputsFrom_spec hUtxos with ⟨hSources, hUtxos⟩
    rcases encodeOutputsFrom_spec hOutputs with ⟨hEncodes, hOutputs⟩
    refine
      { input := hInput
        source := hSource
        hashes := fun input hMem => (hEach input hMem).1
        distinct := hDistinct
        encodes := ?_
        tokenBytes := hToken
        prevouts := hPrevouts
        sequences := hSequences
        utxos := hUtxos
        outputs := hOutputs }
    intro output hMem
    rcases List.mem_append.mp hMem with hMem | hMem
    · exact hSources output hMem
    · exact hEncodes output hMem
  · cases hChecked

/- The bytes that a context has hashed. -/
def hashedBytes (context : SigningContext) : List (List UInt8) :=
  [context.transaction.inputs.flatMap Input.prevout,
    context.transaction.inputs.flatMap sequenceBytes, outputBytes context.sourceOutputs,
    outputBytes context.transaction.outputs]

variable {sha256 : List UInt8 → Vector UInt8 32} {preimage' : Preimage}

/- Equal serializations have equal fields in front of what is hashed: each has its place, as the
   covered bytecode and so the length of the token prefix are the same. -/
theorem Preimage.serialize_injective {transaction transaction' : Transaction}
    (hHash : preimage.input.outpointTransactionHash.length = 32)
    (hHash' : preimage'.input.outpointTransactionHash.length = 32)
    (hSame :
        preimage.serialize sha256 transaction covered mode =
          preimage'.serialize sha256 transaction' covered mode) :
    transaction.version = transaction'.version ∧
    transaction.locktime = transaction'.locktime ∧
    preimage.input.outpoint = preimage'.input.outpoint ∧
    preimage.tokenBytes = preimage'.tokenBytes ∧
    preimage.source.valueSatoshis = preimage'.source.valueSatoshis ∧
    doubleSha256 sha256 preimage.prevouts = doubleSha256 sha256 preimage'.prevouts ∧
    doubleSha256 sha256 preimage.sequences = doubleSha256 sha256 preimage'.sequences ∧
    doubleSha256 sha256 preimage.outputs = doubleSha256 sha256 preimage'.outputs ∧
    (mode = allOutputsAllUtxos →
      doubleSha256 sha256 preimage.utxos = doubleSha256 sha256 preimage'.utxos) := by
  have hWidth (preimage : Preimage) (hHash : preimage.input.outpointTransactionHash.length = 32) :
      preimage.input.prevout.length = 36 := by
    unfold Input.prevout
    rw [List.length_append, List.length_reverse, hHash, length_bytesLE]
  have hDigest (bytes : List UInt8) : (hash256 sha256 bytes).length = 32 := by
    unfold hash256
    exact Vector.length_toList
  have hWord (value : UInt64) (value' : UInt64)
      (hBytes : bytesLE value.toNat 8 = bytesLE value'.toNat 8) :
      value = value' := by
    have hNat := congrArg natOfBytesLE hBytes
    rw [natOfBytesLE_bytesLE value.toNat_lt, natOfBytesLE_bytesLE value'.toNat_lt] at hNat
    exact UInt64.toNat_inj.mp hNat
  have hDigests (bytes bytes' : List UInt8) (hEq : hash256 sha256 bytes = hash256 sha256 bytes') :
      doubleSha256 sha256 bytes = doubleSha256 sha256 bytes' :=
    Vector.toList_inj.mp hEq
  unfold Preimage.serialize at hSame
  rcases List.append_inj hSame (by simp) with ⟨hVersion, hSame⟩
  rcases List.append_inj hSame (by rw [hDigest, hDigest]) with ⟨hPrevouts, hSame⟩
  rcases List.append_inj hSame
      (by split <;> simp [hDigest]) with
    ⟨hUtxos, hSame⟩
  rcases List.append_inj hSame (by rw [hDigest, hDigest]) with ⟨hSequences, hSame⟩
  rcases List.append_inj hSame
      (by rw [hWidth _ hHash, hWidth _ hHash']) with
    ⟨hInput, hSame⟩
  have hLength := congrArg List.length hSame
  simp only [List.length_append, hDigest, length_bytesLE] at hLength
  rcases List.append_inj hSame (by omega) with ⟨hToken, hSame⟩
  rw [List.append_cancel_left_eq, List.append_cancel_left_eq] at hSame
  rcases List.append_inj hSame (by simp) with ⟨hValue, hSame⟩
  rcases List.append_inj hSame (by simp) with ⟨-, hSame⟩
  rcases List.append_inj hSame (by rw [hDigest, hDigest]) with ⟨hOutputs, hSame⟩
  rcases List.append_inj hSame (by simp) with ⟨hLocktime, -⟩
  refine ⟨bytesLE_injective hVersion, bytesLE_injective hLocktime,
    prevout_injective hHash hHash' hInput, hToken, hWord _ _ hValue, hDigests _ _ hPrevouts,
    hDigests _ _ hSequences, hDigests _ _ hOutputs, ?_⟩
  intro hMode
  rw [if_pos hMode, if_pos hMode] at hUtxos
  exact hDigests _ _ hUtxos

--- What Is Committed

/- The value and the token of the input under signature. -/
def signedSource (context : SigningContext) : Option (UInt64 × Option Token) :=
  (context.sourceOutputs[context.inputIndex]?).map
    (fun source => (source.valueSatoshis, source.token))

/- The contexts have what is signed in common. -/
structure Agree (mode : UInt8) (context context' : SigningContext) : Prop where
  version : context.transaction.version = context'.transaction.version
  locktime : context.transaction.locktime = context'.transaction.locktime
  inputs : context.transaction.inputs = context'.transaction.inputs
  signed : signedSource context = signedSource context'
  outputs : context.transaction.outputs = context'.transaction.outputs
  sources : mode = allOutputsAllUtxos → context.sourceOutputs = context'.sourceOutputs

/-
  The contexts differ, but only in that the locking bytecode of an output starts with the token
  data that it carries in the other one.
-/
structure SplitApart (mode : UInt8) (context context' : SigningContext) : Prop where
  version : context.transaction.version = context'.transaction.version
  locktime : context.transaction.locktime = context'.transaction.locktime
  inputs : context.transaction.inputs = context'.transaction.inputs
  index : context.inputIndex = context'.inputIndex
  signed : signedSource context = signedSource context'
  outputs : List.Forall₂ Output.Aliases context.transaction.outputs context'.transaction.outputs
  sources :
    mode = allOutputsAllUtxos →
    List.Forall₂ Output.Aliases context.sourceOutputs context'.sourceOutputs
  differ :
    context.transaction.outputs = context'.transaction.outputs →
    mode = allOutputsAllUtxos ∧ context.sourceOutputs ≠ context'.sourceOutputs

/- An untokened output whose locking bytecode starts with token data. -/
def Output.Crafted (output : Output) : Prop :=
  output.token = none ∧ ∃ token bytes rest,
      tokenPrefix (some token) = .ok bytes ∧ output.lockingBytecode = bytes ++ rest

/- The outputs that the mode signs. -/
def committedOutputs (mode : UInt8) (context : SigningContext) : List Output :=
  context.transaction.outputs ++
    if mode = allOutputsAllUtxos then context.sourceOutputs
    else []

theorem outputBytes_eq_iff {outputs' : List Output} (hEncodes : ∀ output ∈ outputs, output.Encodes)
    (hEncodes' : ∀ output ∈ outputs', output.Encodes) :
    outputBytes outputs = outputBytes outputs' ↔ List.Forall₂ Output.Aliases outputs outputs' := by
  have hRaws :
      outputBytes outputs = outputBytes outputs' ↔
      outputs.map Output.raw = outputs'.map Output.raw := by
    constructor
    · intro hBytes
      apply selfDelimiting_rawOutput.flatMap_injective _ _ hBytes
      · rw [List.forall_mem_map]
        exact fun output hMem => (hEncodes output hMem).range
      · rw [List.forall_mem_map]
        exact fun output hMem => (hEncodes' output hMem).range
    · intro hSame
      unfold outputBytes
      rw [hSame]
  rw [hRaws, ← List.forall₂_eq_eq_eq, List.forall₂_map_left_iff, List.forall₂_map_right_iff]
  clear hRaws
  induction outputs generalizing outputs' with
  | nil => cases outputs' <;> simp
  | cons output rest ih =>
    cases outputs' with
    | nil => simp
    | cons output' rest' =>
      rw [List.forall_mem_cons] at hEncodes hEncodes'
      rw [List.forall₂_cons, List.forall₂_cons]
      exact and_congr (Output.raw_eq_iff hEncodes.1 hEncodes'.1) (ih hEncodes.2 hEncodes'.2)

/- An output is known by its bytes where none is crafted. -/
theorem eq_of_aliases {outputs' : List Output} (hPlain : ∀ output ∈ outputs, ¬ output.Crafted)
    (hPlain' : ∀ output ∈ outputs', ¬ output.Crafted)
    (hAliases : List.Forall₂ Output.Aliases outputs outputs') : outputs = outputs' := by
  have hCrafted {output output' : Output} (hHides : output.Hides output') : output.Crafted := by
    rcases hHides with ⟨-, hNone, token, bytes, -, hPrefix, hScript⟩
    exact ⟨hNone, token, bytes, _, hPrefix, hScript⟩
  induction hAliases with
  | nil => rfl
  | cons hHere hRest ih =>
    rw [List.forall_mem_cons] at hPlain hPlain'
    rw [ih hPlain.2 hPlain'.2]
    rcases hHere with rfl | hHides | hHides
    · rfl
    · exact absurd (hCrafted hHides) hPlain.1
    · exact absurd (hCrafted hHides) hPlain'.1

variable {context' : SigningContext}

/- Where no committed output is crafted, nothing can be split in two ways. -/
theorem not_splitApart_of_plain
    (hPlain : ∀ output ∈ committedOutputs mode context, ¬ output.Crafted)
    (hPlain' : ∀ output ∈ committedOutputs mode context', ¬ output.Crafted) :
    ¬ SplitApart mode context context' := by
  intro hSplit
  unfold committedOutputs at hPlain hPlain'
  rw [List.forall_mem_append] at hPlain hPlain'
  rcases hSplit.differ (eq_of_aliases hPlain.1 hPlain'.1 hSplit.outputs) with ⟨hMode, hDiffer⟩
  rw [if_pos hMode] at hPlain hPlain'
  exact hDiffer (eq_of_aliases hPlain.2 hPlain'.2 (hSplit.sources hMode))

/- The inputs are told by their outpoints and sequences. -/
theorem inputs_injective {inputs' : List Input}
    (hHashes : ∀ input ∈ inputs, input.outpointTransactionHash.length = 32)
    (hHashes' : ∀ input ∈ inputs', input.outpointTransactionHash.length = 32)
    (hPrevouts : inputs.flatMap Input.prevout = inputs'.flatMap Input.prevout)
    (hSequences : inputs.flatMap sequenceBytes = inputs'.flatMap sequenceBytes) :
    inputs = inputs' := by
  induction inputs generalizing inputs' with
  | nil =>
    cases inputs' with
    | nil => rfl
    | cons input' rest' =>
      have hLength := congrArg List.length hSequences
      simp [sequenceBytes] at hLength
      omega
  | cons input rest ih =>
    cases inputs' with
    | nil =>
      have hLength := congrArg List.length hSequences
      simp [sequenceBytes] at hLength
    | cons input' rest' =>
      rw [List.forall_mem_cons] at hHashes hHashes'
      rw [List.flatMap_cons, List.flatMap_cons] at hPrevouts
      rw [List.flatMap_cons, List.flatMap_cons] at hSequences
      rcases List.append_inj hPrevouts
          (by
            simp [Input.prevout, hHashes.1, hHashes'.1]) with
        ⟨hPrevout, hPrevouts⟩
      rcases List.append_inj hSequences
          (by simp [sequenceBytes]) with
        ⟨hSequence, hSequences⟩
      have hOutpoint := prevout_injective hHashes.1 hHashes'.1 hPrevout
      have hSequence := bytesLE_injective hSequence
      unfold Input.outpoint at hOutpoint
      rw [Prod.mk.injEq] at hOutpoint
      rw [ih hHashes.2 hHashes'.2 hPrevouts hSequences]
      rcases input with ⟨hash, index, sequence⟩
      rcases input' with ⟨hash', index', sequence'⟩
      dsimp only at *
      rw [hOutpoint.1, hOutpoint.2, hSequence]

/- One outpoint is at one place of distinct inputs. -/
theorem index_eq_of_outpoint (hDistinct : (inputs.map Input.outpoint).Nodup) {i j : Nat}
    {input input' : Input} (hInput : inputs[i]? = some input) (hInput' : inputs[j]? = some input')
    (hSame : input.outpoint = input'.outpoint) : i = j := by
  have hI : (inputs.map Input.outpoint)[i]? = some input.outpoint := by
    rw [List.getElem?_map, hInput]
    rfl
  have hJ : (inputs.map Input.outpoint)[j]? = some input.outpoint := by
    rw [List.getElem?_map, hInput', hSame]
    rfl
  rcases List.getElem?_eq_some_iff.mp hI with ⟨hLt, hAt⟩
  rcases List.getElem?_eq_some_iff.mp hJ with ⟨hLt', hAt'⟩
  exact (hDistinct.getElem_inj_iff).mp (hAt.trans hAt'.symm)

/- Contexts that are split apart serialize alike. -/
theorem SplitApart.serialize_eq (hOf : preimage.Of context) (hOf' : preimage'.Of context')
    (hSplit : SplitApart mode context context') :
    preimage.serialize sha256 context.transaction covered mode =
      preimage'.serialize sha256 context'.transaction covered mode := by
  have hInput : preimage.input = preimage'.input := by
    have hAt := hOf.input
    rw [hSplit.inputs, hSplit.index, hOf'.input] at hAt
    exact (Option.some.inj hAt).symm
  have hSigned := hSplit.signed
  unfold signedSource at hSigned
  rw [hOf.source, hOf'.source, Option.map_some, Option.map_some, Option.some.injEq, Prod.mk.injEq]
    at hSigned
  have hToken : preimage.tokenBytes = preimage'.tokenBytes := by
    have hBytes := hOf.tokenBytes
    rw [hSigned.2, hOf'.tokenBytes] at hBytes
    exact (Except.ok.inj hBytes).symm
  have hEncodes := hOf.encodes
  have hEncodes' := hOf'.encodes
  rw [List.forall_mem_append] at hEncodes hEncodes'
  have hOutputs : preimage.outputs = preimage'.outputs := by
    rw [hOf.outputs, hOf'.outputs, outputBytes_eq_iff hEncodes.2 hEncodes'.2]
    exact hSplit.outputs
  have hUtxos :
      (if mode = allOutputsAllUtxos then hash256 sha256 preimage.utxos
        else []) =
        if mode = allOutputsAllUtxos then hash256 sha256 preimage'.utxos
        else [] := by
    by_cases hMode : mode = allOutputsAllUtxos
    · have hSame : preimage.utxos = preimage'.utxos := by
        rw [hOf.utxos, hOf'.utxos, outputBytes_eq_iff hEncodes.1 hEncodes'.1]
        exact hSplit.sources hMode
      rw [hSame]
    · rw [if_neg hMode, if_neg hMode]
  unfold Preimage.serialize
  rw [hUtxos, hOutputs, hToken, hInput, hSigned.1, hSplit.version, hSplit.locktime, hOf.prevouts,
    hOf'.prevouts, hOf.sequences, hOf'.sequences, hSplit.inputs]

/- Equal serializations agree, up to aliases of outputs. -/
theorem aliases_of_serialize_eq (hOf : preimage.Of context) (hOf' : preimage'.Of context')
    (hFree : CollisionFree sha256 {bytes | bytes ∈ hashedBytes context ++ hashedBytes context'})
    (hSame :
        preimage.serialize sha256 context.transaction covered mode =
          preimage'.serialize sha256 context'.transaction covered mode) :
    context.transaction.version = context'.transaction.version ∧
    context.transaction.locktime = context'.transaction.locktime ∧
    context.transaction.inputs = context'.transaction.inputs ∧
    context.inputIndex = context'.inputIndex ∧
    signedSource context = signedSource context' ∧
    List.Forall₂ Output.Aliases context.transaction.outputs context'.transaction.outputs ∧
    (mode = allOutputsAllUtxos →
      List.Forall₂ Output.Aliases context.sourceOutputs context'.sourceOutputs) := by
  have hHash := hOf.hashes _ (List.mem_of_getElem? hOf.input)
  have hHash' := hOf'.hashes _ (List.mem_of_getElem? hOf'.input)
  rcases Preimage.serialize_injective hHash hHash' hSame with
    ⟨hVersion, hLocktime, hOutpoint, hToken, hValue, hPrevouts, hSequences, hOutputs, hUtxos⟩
  rw [hOf.prevouts, hOf'.prevouts] at hPrevouts
  rw [hOf.sequences, hOf'.sequences] at hSequences
  rw [hOf.outputs, hOf'.outputs] at hOutputs
  rw [hOf.utxos, hOf'.utxos] at hUtxos
  have hInputs : context.transaction.inputs = context'.transaction.inputs :=
    inputs_injective hOf.hashes hOf'.hashes
      (hFree _ (by simp [hashedBytes]) _ (by simp [hashedBytes]) hPrevouts)
      (hFree _ (by simp [hashedBytes]) _ (by simp [hashedBytes]) hSequences)
  have hEncodes := hOf.encodes
  have hEncodes' := hOf'.encodes
  rw [List.forall_mem_append] at hEncodes hEncodes'
  refine ⟨hVersion, hLocktime, hInputs, ?_, ?_, ?_, ?_⟩
  · have hInput := hOf.input
    rw [hInputs] at hInput
    exact index_eq_of_outpoint hOf'.distinct hInput hOf'.input hOutpoint
  · unfold signedSource
    rw [hOf.source, hOf'.source, Option.map_some, Option.map_some, hValue]
    have hBytes := hOf.tokenBytes
    have hBytes' := hOf'.tokenBytes
    rw [hToken] at hBytes
    cases hSome : preimage.source.token with
    | none =>
      cases hSome' : preimage'.source.token with
      | none => rfl
      | some token' =>
        rw [hSome] at hBytes
        rw [hSome', ← Except.ok.inj hBytes] at hBytes'
        cases head?_tokenPrefix hBytes' []
    | some token =>
      rw [hSome] at hBytes
      cases hSome' : preimage'.source.token with
      | none =>
        rw [hSome'] at hBytes'
        rw [← Except.ok.inj hBytes'] at hBytes
        cases head?_tokenPrefix hBytes []
      | some token' =>
        rw [hSome'] at hBytes'
        have hNil : preimage'.tokenBytes ++ [] = preimage'.tokenBytes ++ [] := rfl
        rw [(tokenPrefix_unique hBytes hBytes' hNil).1]
  · apply (outputBytes_eq_iff hEncodes.2 hEncodes'.2).mp
    exact hFree _ (by simp [hashedBytes]) _ (by simp [hashedBytes]) hOutputs
  · intro hMode
    apply (outputBytes_eq_iff hEncodes.1 hEncodes'.1).mp
    exact hFree _ (by simp [hashedBytes]) _ (by simp [hashedBytes]) (hUtxos hMode)

/-
  Equal serializations of two accepted contexts commit to the same fields exactly where the
  contexts are not split apart, and they never are where no committed output is crafted.
-/
theorem serialization_commits_iff (sha256 : List UInt8 → Vector UInt8 32)
    (context context' : SigningContext) (covered : List UInt8) (mode : UInt8)
    (bytes bytes' : List UInt8)
    (hAccepted : signingSerialization sha256 context covered mode = .ok bytes)
    (hAccepted' : signingSerialization sha256 context' covered mode = .ok bytes')
    (hFree : CollisionFree sha256 {bytes | bytes ∈ hashedBytes context ++ hashedBytes context'}) :
    ((bytes = bytes' → Agree mode context context') ↔ ¬ SplitApart mode context context') ∧
    ((∀ output ∈ committedOutputs mode context ++ committedOutputs mode context', ¬ output.Crafted)
        →
      ¬ SplitApart mode context context') := by
  rcases bind_eq_ok_iff.mp hAccepted with ⟨preimage, hChecked, hBytes⟩
  rcases bind_eq_ok_iff.mp hAccepted' with ⟨preimage', hChecked', hBytes'⟩
  cases hBytes
  cases hBytes'
  have hOf := checkedPreimage_spec hChecked
  have hOf' := checkedPreimage_spec hChecked'
  refine ⟨⟨?_, ?_⟩, ?_⟩
  · intro hCommits hSplit
    have hAgree := hCommits (hSplit.serialize_eq hOf hOf')
    rcases hSplit.differ hAgree.outputs with ⟨hMode, hDiffer⟩
    exact hDiffer (hAgree.sources hMode)
  · intro hWhole hSame
    rcases aliases_of_serialize_eq hOf hOf' hFree hSame with
      ⟨hVersion, hLocktime, hInputs, hIndex, hSigned, hOutputs, hSources⟩
    by_contra hDisagree
    apply hWhole
    refine
      { version := hVersion
        locktime := hLocktime
        inputs := hInputs
        index := hIndex
        signed := hSigned
        outputs := hOutputs
        sources := hSources
        differ := ?_ }
    intro hEqual
    by_contra hSame
    apply hDisagree
    refine
      { version := hVersion
        locktime := hLocktime
        inputs := hInputs
        signed := hSigned
        outputs := hEqual
        sources := ?_ }
    intro hMode
    by_contra hDiffer
    exact hSame ⟨hMode, hDiffer⟩
  · intro hPlain
    rw [List.forall_mem_append] at hPlain
    exact not_splitApart_of_plain hPlain.1 hPlain.2

--- A Payment And Its Aliases

def payeeScript : List UInt8 :=
  [0x76, 0xa9, 0x14, 0x75, 0x1e, 0x76, 0xe8, 0x19, 0x91, 0x96, 0xd4, 0x54, 0x94, 0x1c, 0x45, 0xd1,
    0xb3, 0xa3, 0x23, 0xf1, 0x43, 0x3b, 0xd6, 0x88, 0xac]

/- A payment of one source output to itself. -/
def paymentContext (locktime : UInt32) (output : Output) : SigningContext :=
  { inputIndex := 0
    transaction :=
      { version := 2
        locktime
        inputs :=
          [{ outpointTransactionHash := List.replicate 32 7
             outpointIndex := 0
             sequenceNumber := 0xffffffff }]
        outputs := [output] }
    sourceOutputs := [{ valueSatoshis := 1000, lockingBytecode := payeeScript, token := none }] }

def plainOutput : Output := { valueSatoshis := 1000, lockingBytecode := payeeScript, token := none }

def tokenOutput : Output :=
  { plainOutput with token := some { category := List.replicate 32 1, amount := 5, nft := none } }

/- It has the same token data in front of its script. -/
def craftedOutput : Output :=
  { plainOutput with
    lockingBytecode := 0xef :: (List.replicate 32 1 ++ 0x10 :: 0x05 :: payeeScript) }

/- Whatever the digests, a payment of a token serializes as one of no token. -/
theorem crafted_script_serializes_as_token :
    ¬ Agree allOutputs (paymentContext 0 tokenOutput) (paymentContext 0 craftedOutput) ∧
    ∀ sha256 : List UInt8 → Vector UInt8 32,
      ∃ bytes,
        signingSerialization sha256 (paymentContext 0 tokenOutput) payeeScript allOutputs =
            .ok bytes ∧
          signingSerialization sha256 (paymentContext 0 craftedOutput) payeeScript allOutputs =
            .ok bytes := by
  have hChecked :
      ∃ preimage,
      checkedPreimage (paymentContext 0 tokenOutput) payeeScript allOutputs = .ok preimage ∧
        checkedPreimage (paymentContext 0 craftedOutput) payeeScript allOutputs = .ok preimage := by
    apply exists_ok_of_check
    decide +kernel
  rcases hChecked with ⟨preimage, hToken, hCrafted⟩
  constructor
  · intro hAgree
    have hOutputs := hAgree.outputs
    revert hOutputs
    decide +kernel
  · intro sha256
    refine ⟨preimage.serialize sha256 (paymentContext 0 tokenOutput).transaction payeeScript
        allOutputs, ?_, ?_⟩
    · unfold signingSerialization
      rw [hToken]
      rfl
    · unfold signingSerialization
      rw [hCrafted]
      rfl

def prevoutsDigest : TxId :=
  #v[0xd9, 0xe3, 0x8b, 0x47, 0x35, 0x02, 0x70, 0x0d, 0x57, 0x14, 0x76, 0xb3, 0x69, 0xf9, 0xbf, 0xe8,
    0xd2, 0x87, 0xc2, 0x4c, 0xf1, 0xa0, 0x9a, 0x55, 0x78, 0x11, 0x72, 0xb1, 0xfc, 0xd0, 0x61, 0x3a]

def prevoutsHash : TxId :=
  #v[0xb9, 0xba, 0xc9, 0xac, 0x37, 0x84, 0xcd, 0x72, 0x88, 0xcc, 0x30, 0xe2, 0x71, 0xc7, 0x95, 0x05,
    0x24, 0x9b, 0x88, 0x90, 0x15, 0xd7, 0x07, 0xae, 0xf1, 0xb5, 0x2d, 0xeb, 0x9c, 0xf0, 0xf2, 0xa5]

def sequencesDigest : TxId :=
  #v[0xad, 0x95, 0x13, 0x1b, 0xc0, 0xb7, 0x99, 0xc0, 0xb1, 0xaf, 0x47, 0x7f, 0xb1, 0x4f, 0xcf, 0x26,
    0xa6, 0xa9, 0xf7, 0x60, 0x79, 0xe4, 0x8b, 0xf0, 0x90, 0xac, 0xb7, 0xe8, 0x36, 0x7b, 0xfd, 0x0e]

def sequencesHash : TxId :=
  #v[0x3b, 0xb1, 0x30, 0x29, 0xce, 0x7b, 0x1f, 0x55, 0x9e, 0xf5, 0xe7, 0x47, 0xfc, 0xac, 0x43, 0x9f,
    0x14, 0x55, 0xa2, 0xec, 0x7c, 0x5f, 0x09, 0xb7, 0x22, 0x90, 0x79, 0x5e, 0x70, 0x66, 0x50, 0x44]

def outputsDigest : TxId :=
  #v[0xaf, 0xd3, 0x90, 0x34, 0x82, 0x2d, 0xd8, 0x87, 0x13, 0xea, 0xb8, 0x0a, 0x0b, 0xca, 0xf1, 0x33,
    0x9c, 0x7f, 0x6c, 0x8e, 0x5c, 0x9b, 0x34, 0xb6, 0xb5, 0x15, 0x39, 0x6a, 0x9e, 0x22, 0xda, 0xb9]

def outputsHash : TxId :=
  #v[0xcc, 0x45, 0x18, 0xc5, 0x39, 0x8d, 0xed, 0x0f, 0x3f, 0xd0, 0x9e, 0x74, 0x32, 0x6e, 0x5d, 0x90,
    0xba, 0xe4, 0x57, 0x40, 0x61, 0xd8, 0x90, 0x55, 0x5d, 0x6a, 0x91, 0xc3, 0xc2, 0x1f, 0xd9, 0xfa]

/- The digest function at the bytes of the plain payment. -/
def plainSha256 (bytes : List UInt8) : Vector UInt8 32 :=
  if bytes = List.replicate 32 7 ++ [0, 0, 0, 0] then prevoutsDigest
  else if bytes = prevoutsDigest.toList then prevoutsHash
  else if bytes = [0xff, 0xff, 0xff, 0xff] then sequencesDigest
  else if bytes = sequencesDigest.toList then sequencesHash
  else if bytes = outputBytes [plainOutput] then outputsDigest
  else if bytes = outputsDigest.toList then outputsHash
  else Vector.replicate 32 0

/- A later lock time is another serialization. -/
theorem serialization_commits_iff_locktime :
    ∃ bytes bytes',
    signingSerialization plainSha256 (paymentContext 0 plainOutput) payeeScript allOutputsAllUtxos =
        .ok bytes ∧
      signingSerialization plainSha256 (paymentContext 1 plainOutput) payeeScript allOutputsAllUtxos
          = .ok bytes' ∧
      bytes ≠ bytes' := by
  have hRun :
      ∃ bytes,
      signingSerialization plainSha256 (paymentContext 0 plainOutput) payeeScript allOutputsAllUtxos
            = .ok bytes ∧
        True := by
    apply exists_ok_of_check
    decide +kernel
  have hRun' :
      ∃ bytes,
      signingSerialization plainSha256 (paymentContext 1 plainOutput) payeeScript allOutputsAllUtxos
            = .ok bytes ∧
        True := by
    apply exists_ok_of_check
    decide +kernel
  rcases hRun with ⟨bytes, hRun, -⟩
  rcases hRun' with ⟨bytes', hRun', -⟩
  refine ⟨bytes, bytes', hRun, hRun', ?_⟩
  have hFree :
      CollisionFree plainSha256
        {bytes | bytes ∈ hashedBytes (paymentContext 0 plainOutput) ++
            hashedBytes (paymentContext 1 plainOutput)} := by
    have hAll :
        ∀ raw ∈
          hashedBytes (paymentContext 0 plainOutput) ++ hashedBytes (paymentContext 1 plainOutput),
        ∀ raw' ∈ hashedBytes (paymentContext 0 plainOutput) ++
              hashedBytes (paymentContext 1 plainOutput),
          doubleSha256 plainSha256 raw = doubleSha256 plainSha256 raw' → raw = raw' := by
      decide +kernel
    intro raw hRaw raw' hRaw'
    exact hAll raw hRaw raw' hRaw'
  have hCommits :=
    serialization_commits_iff plainSha256 (paymentContext 0 plainOutput)
      (paymentContext 1 plainOutput) payeeScript allOutputsAllUtxos bytes bytes' hRun hRun' hFree
  have hPlain :
      ∀ output ∈ committedOutputs allOutputsAllUtxos (paymentContext 0 plainOutput) ++
          committedOutputs allOutputsAllUtxos (paymentContext 1 plainOutput), ¬ output.Crafted := by
    have hSame :
        ∀ output ∈ committedOutputs allOutputsAllUtxos (paymentContext 0 plainOutput) ++
            committedOutputs allOutputsAllUtxos (paymentContext 1 plainOutput),
        output.lockingBytecode.head? ≠ some 0xef := by
      decide +kernel
    rintro output hMem ⟨-, token, bytes, rest, hPrefix, hScript⟩
    apply hSame output hMem
    rw [hScript]
    exact head?_tokenPrefix hPrefix rest
  intro hEqual
  have hAgree := hCommits.1.mpr (hCommits.2 hPlain) hEqual
  exact absurd hAgree.locktime (by decide)

end OptnWallet.Connect
