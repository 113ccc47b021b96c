import OptnWallet.Core.Varint

/-
  CashTokens output prefixes: the category, a bit field, the commitment of a non-fungible token
  and the fungible amount, in front of a locking script.

  Main declarations:
    * `TokenData.encodePrefix`
    * `TokenData.decodePrefix`
    * `PrefixFrame` and `PrefixFrame.Valid`
    * `readsAs_readPrefix`
    * `TokenData.decodePrefix_canonical_iff`
-/

--- Token Data

namespace OptnWallet

open ByteFormat

def prefixToken : UInt8 := 0xef

def hasCommitmentLength : UInt8 := 0x40

def hasNft : UInt8 := 0x20

def hasAmount : UInt8 := 0x10

inductive Capability where
  | none
  | mutable
  | minting
deriving DecidableEq

namespace Capability

def bits : Capability → UInt8
  | none => 0x00
  | mutable => 0x01
  | minting => 0x02

def fromBits (bits : UInt8) : Except CliError Capability :=
  let other := bits &&& 0x0f
  if other = 0x00 then .ok none
  else if other = 0x01 then .ok mutable
  else if other = 0x02 then .ok minting
  else
    .error (.protocol ("unknown NFT capability 0x" ++ String.ofList (Nat.toDigits 16 other.toNat)))

theorem bits_of_fromBits {field : UInt8} {capability : Capability}
    (hCapability : fromBits field = .ok capability) : field &&& 0x0f = capability.bits := by
  unfold fromBits at hCapability
  dsimp only at hCapability
  split_ifs at hCapability with hNone hMutable hMinting
  · cases hCapability
    exact hNone
  · cases hCapability
    exact hMutable
  · cases hCapability
    exact hMinting

end Capability

structure Nft where
  capability : Capability
  commitment : List UInt8
deriving DecidableEq

/-
  The token content of one output.  The category is in display order; an amount of zero means no
  fungible token.
-/
structure TokenData where
  category : Vector UInt8 32
  amount : UInt64
  nft : Option Nft
deriving DecidableEq

namespace TokenData

--- Encoding

def commitment (token : TokenData) : List UInt8 :=
  match token.nft with
  | some nft => nft.commitment
  | none => []

def bitfield (token : TokenData) : UInt8 :=
  let nftBits :=
    match token.nft with
    | some nft => hasNft ||| nft.capability.bits |||
        (if nft.commitment ≠ [] then hasCommitmentLength
          else 0)
    | none => 0
  nftBits ||| (if 0 < token.amount then hasAmount else 0)

/-
  The prefix that precedes the locking script.  On the wire the category is little-endian, the
  reverse of how it is displayed.
-/
def encodePrefix (token : TokenData) : Except CliError (List UInt8) :=
  if token.amount = 0 ∧ token.nft = none then
    .error (.internal "a token prefix must carry an amount, an NFT, or both")
  else if 40 < token.commitment.length then .error
      (.usage ("NFT commitment is " ++ toString token.commitment.length ++
          " bytes; the consensus limit is 40"))
  else .ok (prefixToken ::
        (token.category.reverse.toList ++ token.bitfield ::
            ((if token.commitment ≠ [] then
                varint (UInt64.ofNat token.commitment.length) ++ token.commitment
              else []) ++
              (if 0 < token.amount then varint token.amount
                else []))))

end TokenData

--- Decoding

/- Varints of any width pass. -/
def anyWidth (_ : UInt8) (_ : UInt64) : Except CliError Unit := .ok ()

def readVarint : Reader CliError UInt64 :=
  compactSize (.protocol "varint is truncated") anyWidth

def readCommitment (bitfield : UInt8) : Reader CliError (List UInt8) :=
  if bitfield &&& hasCommitmentLength ≠ 0 then do
    let len ← readVarint
    Reader.take (.protocol "commitment is truncated") len.toNat
  else return []

def readNft (bitfield : UInt8) : Reader CliError (Option Nft) :=
  if bitfield &&& hasNft ≠ 0 then do
    let capability ← Reader.lift (Capability.fromBits bitfield)
    let commitment ← readCommitment bitfield
    return some { capability, commitment }
  else return none

def readAmount (bitfield : UInt8) : Reader CliError UInt64 :=
  if bitfield &&& hasAmount ≠ 0 then readVarint
  else return 0

def checkMarker (first : UInt8) : Except CliError Unit :=
  if first = prefixToken then .ok ()
  else .error (.protocol "output has no token prefix")

/- The check for 33 bytes behind the marker covers both the category and the bit field. -/
def readPrefix : Reader CliError TokenData := do
  let first ← Reader.takeByte (.protocol "output has no token prefix")
  Reader.lift (checkMarker first)
  let category ← Reader.takeArray (.protocol "token prefix is truncated") 32
  let bitfield ← Reader.takeByte (.protocol "token prefix is truncated")
  let nft ← readNft bitfield
  let amount ← readAmount bitfield
  pure { category := category.reverse, amount, nft }

/- The token data and how many bytes it took. -/
def TokenData.decodePrefix (bytes : List UInt8) : Except CliError (TokenData × Nat) :=
  readPrefix bytes 0

--- Frames

/-
  What the bit field announces about a commitment and the bytes of its length.
-/
def CommitmentFramed (bitfield : UInt8) (lengthBytes commitment : List UInt8) : Prop :=
  if bitfield &&& hasCommitmentLength ≠ 0 then
    ∃ len, compactLayout anyWidth len lengthBytes ∧ commitment.length = len.toNat
  else lengthBytes = [] ∧ commitment = []

def NftFramed (bitfield : UInt8) (lengthBytes : List UInt8) : Option Nft → Prop
  | none => bitfield &&& hasNft = 0 ∧ lengthBytes = []
  | some nft => bitfield &&& hasNft ≠ 0 ∧
      Capability.fromBits bitfield = .ok nft.capability ∧
      CommitmentFramed bitfield lengthBytes nft.commitment

def AmountFramed (bitfield : UInt8) (amountBytes : List UInt8) (amount : UInt64) : Prop :=
  if bitfield &&& hasAmount ≠ 0 then compactLayout anyWidth amount amountBytes
  else amountBytes = [] ∧ amount = 0

/-
  Bytes in the form of a prefix: the category in wire order, the bit field and the parts that it
  names, with varints of any width.
-/
structure PrefixFrame where
  category : Vector UInt8 32
  bitfield : UInt8
  lengthBytes : List UInt8
  nft : Option Nft
  amountBytes : List UInt8
  amount : UInt64
  nft_framed : NftFramed bitfield lengthBytes nft
  amount_framed : AmountFramed bitfield amountBytes amount

namespace PrefixFrame

def token (frame : PrefixFrame) : TokenData :=
  { category := frame.category.reverse, amount := frame.amount, nft := frame.nft }

def bytes (frame : PrefixFrame) : List UInt8 :=
  prefixToken ::
    (frame.category.toList ++
      frame.bitfield :: (frame.lengthBytes ++ (frame.token.commitment ++ frame.amountBytes)))

/- The consensus rules for a prefix. -/
structure Valid (frame : PrefixFrame) : Prop where
  reserved : frame.bitfield &&& 0x80 = 0
  bare : frame.bitfield &&& hasNft = 0 → frame.bitfield &&& (hasCommitmentLength ||| 0x0f) = 0
  carries : frame.bitfield &&& (hasNft ||| hasAmount) ≠ 0
  commitment :
    frame.bitfield &&& hasCommitmentLength ≠ 0 →
    frame.lengthBytes = varint (UInt64.ofNat frame.token.commitment.length) ∧
      1 ≤ frame.token.commitment.length ∧
      frame.token.commitment.length ≤ 40
  amount :
    frame.bitfield &&& hasAmount ≠ 0 →
    frame.amountBytes = varint frame.amount ∧ 1 ≤ frame.amount.toNat ∧ frame.amount.toNat < 2 ^ 63

end PrefixFrame

--- What Decoding Accepts

theorem readsAs_readVarint : ReadsAs readVarint (compactLayout anyWidth) := readsAs_compactSize _ _

variable (bitfield : UInt8)

theorem readsAs_readCommitment :
    ReadsAs (readCommitment bitfield)
      (fun commitment bytes => ∃ lengthBytes,
          bytes = lengthBytes ++ commitment ∧
            CommitmentFramed bitfield lengthBytes commitment) := by
  unfold readCommitment CommitmentFramed
  split
  · apply (readsAs_readVarint.bind fun len => ReadsAs.take _ len.toNat).congr
    intro commitment bytes
    constructor
    · rintro ⟨len, lengthBytes, _, rfl, hLen, rfl, hLength⟩
      exact ⟨lengthBytes, rfl, len, hLen, hLength⟩
    · rintro ⟨lengthBytes, rfl, len, hLen, hLength⟩
      exact ⟨len, lengthBytes, commitment, rfl, hLen, rfl, hLength⟩
  · apply (ReadsAs.pure []).congr
    intro commitment bytes
    constructor
    · rintro ⟨rfl, rfl⟩
      exact ⟨[], rfl, rfl, rfl⟩
    · rintro ⟨lengthBytes, rfl, rfl, rfl⟩
      exact ⟨rfl, rfl⟩

theorem readsAs_readNft :
    ReadsAs (readNft bitfield)
      (fun nft bytes => ∃ lengthBytes,
          bytes = lengthBytes ++ (nft.map Nft.commitment).getD [] ∧
            NftFramed bitfield lengthBytes nft) := by
  unfold readNft
  split
  · rename_i hNft
    apply ((ReadsAs.lift (Capability.fromBits bitfield)).bind fun capability =>
      (readsAs_readCommitment bitfield).bind fun commitment => ReadsAs.pure
      (some (Nft.mk capability commitment))).congr
    intro nft bytes
    constructor
    · rintro ⟨capability, _, _, rfl, ⟨hCapability, rfl⟩,
        commitment, _, _, rfl, ⟨lengthBytes, rfl, hFramed⟩, rfl, rfl⟩
      refine ⟨lengthBytes, ?_, hNft, hCapability, hFramed⟩
      simp
    · rintro ⟨lengthBytes, rfl, hFramed⟩
      cases nft with
      | none => exact absurd hFramed.1 hNft
      | some nft =>
        rcases hFramed with ⟨-, hCapability, hFramed⟩
        refine ⟨nft.capability, [], _, rfl, ⟨hCapability, rfl⟩, nft.commitment, _, [], ?_,
          ⟨lengthBytes, rfl, hFramed⟩, rfl, rfl⟩
        simp
  · rename_i hNft
    rw [not_not] at hNft
    apply (ReadsAs.pure none).congr
    intro nft bytes
    constructor
    · rintro ⟨rfl, rfl⟩
      exact ⟨[], rfl, hNft, rfl⟩
    · rintro ⟨lengthBytes, rfl, hFramed⟩
      cases nft with
      | none =>
        cases hFramed.2
        exact ⟨rfl, rfl⟩
      | some nft => exact absurd hNft hFramed.1

theorem readsAs_readAmount :
    ReadsAs (readAmount bitfield) (fun amount bytes => AmountFramed bitfield bytes amount) := by
  unfold readAmount AmountFramed
  split
  · exact readsAs_readVarint
  · apply (ReadsAs.pure 0).congr
    intro amount bytes
    exact and_comm

theorem checkMarker_eq_ok_iff {first : UInt8} {answer : Unit} :
    checkMarker first = .ok answer ↔ first = prefixToken := by
  unfold checkMarker
  split
  · rename_i hSame
    exact iff_of_true rfl hSame
  · rename_i hOther
    apply iff_of_false _ hOther
    intro hError
    cases hError

theorem PrefixFrame.token_commitment (frame : PrefixFrame) :
    frame.token.commitment = (frame.nft.map Nft.commitment).getD [] := by
  unfold TokenData.commitment token
  cases frame.nft with
  | none => rfl
  | some nft => rfl

/- Decoding accepts exactly the frames. -/
theorem readsAs_readPrefix :
    ReadsAs readPrefix
      (fun token bytes => ∃ frame : PrefixFrame, frame.token = token ∧ frame.bytes = bytes) := by
  apply ((ReadsAs.takeByte _).bind fun first => (ReadsAs.lift (checkMarker first)).bind fun _ =>
    (ReadsAs.takeArray _ 32).bind fun category => (ReadsAs.takeByte _).bind fun bitfield =>
    (readsAs_readNft bitfield).bind fun nft => (readsAs_readAmount bitfield).bind fun amount =>
    ReadsAs.pure (TokenData.mk category.reverse amount nft)).congr
  intro token bytes
  constructor
  · rintro
      ⟨first, _, _, rfl, rfl, _, _, _, rfl, ⟨hMarker, rfl⟩, category, _, _, rfl, rfl, bitfield, _,
        _, rfl, rfl, nft, _, _, rfl, ⟨lengthBytes, rfl, hNft⟩, amount, amountBytes, _, rfl, hAmount,
        rfl, rfl⟩
    refine
      ⟨{ category
         bitfield
         lengthBytes
         nft
         amountBytes
         amount
         nft_framed := hNft
         amount_framed := hAmount }, rfl, ?_⟩
    rw [checkMarker_eq_ok_iff] at hMarker
    unfold PrefixFrame.bytes
    rw [PrefixFrame.token_commitment, hMarker]
    simp
  · rintro ⟨frame, rfl, rfl⟩
    refine
      ⟨prefixToken, [prefixToken], _, ?_, rfl, (), [], _, rfl, ⟨checkMarker_eq_ok_iff.mpr rfl, rfl⟩,
        frame.category, _, _, rfl, rfl, frame.bitfield, [frame.bitfield], _, rfl, rfl, frame.nft, _,
        _, rfl, ⟨frame.lengthBytes, rfl, frame.nft_framed⟩, frame.amount, frame.amountBytes, [],
        rfl, frame.amount_framed, rfl, rfl⟩
    unfold PrefixFrame.bytes
    rw [PrefixFrame.token_commitment]
    simp

--- Canonical Prefixes

/- A property of all 256 bytes. -/
theorem forall_byte {p : UInt8 → Prop} (hEach : ∀ n : Fin 256, p (UInt8.ofNat n)) :
    ∀ byte, p byte := by
  intro byte
  have hByte := hEach ⟨byte.toNat, byte.toNat_lt⟩
  rw [UInt8.ofNat_toNat] at hByte
  exact hByte

namespace TokenData

theorem decodePrefix_eq_ok_iff {bytes : List UInt8} {token : TokenData} {used : Nat} :
    decodePrefix bytes = .ok (token, used) ↔
    ∃ frame : PrefixFrame,
      frame.bytes <+: bytes ∧ frame.token = token ∧ used = frame.bytes.length := by
  unfold decodePrefix
  rw [readsAs_readPrefix _ _ _ _ (Nat.zero_le _), List.drop_zero]
  constructor
  · rintro ⟨_, hPrefix, ⟨frame, hToken, rfl⟩, rfl⟩
    exact ⟨frame, hPrefix, hToken, Nat.zero_add _⟩
  · rintro ⟨frame, hPrefix, hToken, rfl⟩
    exact ⟨_, hPrefix, ⟨frame, hToken, rfl⟩, (Nat.zero_add _).symm⟩

end TokenData

namespace PrefixFrame

variable {frame : PrefixFrame}

/- Bytes start with at most one frame's bytes. -/
theorem unique {frame' : PrefixFrame} {bytes : List UInt8} (hFrame : frame.bytes <+: bytes)
    (hFrame' : frame'.bytes <+: bytes) : frame = frame' := by
  rcases hFrame with ⟨tail, hTail⟩
  rcases hFrame' with ⟨tail', hTail'⟩
  rw [← hTail'] at hTail
  unfold PrefixFrame.bytes at hTail
  rw [token_commitment, token_commitment] at hTail
  rcases frame with ⟨category, bitfield, lengthBytes, nft, amountBytes, amount, hNft, hAmount⟩
  rcases frame' with
    ⟨category', bitfield', lengthBytes', nft', amountBytes', amount', hNft', hAmount'⟩
  dsimp only at hTail
  simp only [List.cons_append, List.append_assoc, List.cons.injEq, true_and] at hTail
  rcases List.append_inj hTail (by simp) with ⟨hCategory, hField⟩
  rcases List.cons.inj hField with ⟨rfl, hParts⟩
  rw [← List.append_assoc, ← List.append_assoc lengthBytes'] at hParts
  have hSameNft :=
    (readsAs_readNft bitfield).unique ⟨lengthBytes, rfl, hNft⟩ ⟨lengthBytes', rfl, hNft'⟩ hParts
  rcases hSameNft with ⟨rfl, hLength⟩
  rw [hLength, List.append_cancel_left_eq] at hParts
  have hSameAmount := (readsAs_readAmount bitfield).unique hAmount hAmount' hParts
  rcases hSameAmount with ⟨rfl, rfl⟩
  cases List.append_cancel_right hLength
  cases Vector.toList_inj.mp hCategory
  rfl

/- The flag of the commitment length says that there is one. -/
theorem Valid.commitment_iff (hValid : frame.Valid) :
    frame.bitfield &&& hasCommitmentLength ≠ 0 ↔ frame.token.commitment ≠ [] := by
  constructor
  · intro hFlag hEmpty
    have hLength := (hValid.commitment hFlag).2.1
    rw [hEmpty] at hLength
    cases hLength
  · intro hNonempty hFlag
    apply hNonempty
    have hFramed := frame.nft_framed
    rw [token_commitment]
    cases hNft : frame.nft with
    | none => rfl
    | some nft =>
      rw [hNft] at hFramed
      have hCommitment := hFramed.2.2
      unfold CommitmentFramed at hCommitment
      rw [if_neg (not_not_intro hFlag)] at hCommitment
      exact hCommitment.2

theorem Valid.amount_iff (hValid : frame.Valid) :
    frame.bitfield &&& hasAmount ≠ 0 ↔ 0 < frame.amount := by
  rw [UInt64.lt_iff_toNat_lt]
  constructor
  · intro hFlag
    exact (hValid.amount hFlag).2.1
  · intro hPositive hFlag
    have hFramed := frame.amount_framed
    unfold AmountFramed at hFramed
    rw [if_neg (not_not_intro hFlag)] at hFramed
    rw [hFramed.2] at hPositive
    exact absurd hPositive (Nat.lt_irrefl _)

/- The bits of a valid frame without a non-fungible token. -/
theorem bare_bits (bits : UInt8) (hReserved : bits &&& 0x80 = 0) (hNft : bits &&& hasNft = 0)
    (hBare : bits &&& (hasCommitmentLength ||| 0x0f) = 0) :
    0 ||| (if bits &&& hasAmount ≠ 0 then hasAmount else 0) = bits := by
  revert bits
  apply forall_byte
  decide +kernel

/- The bits of a valid frame with one. -/
theorem nft_bits (capability : Capability) (bits : UInt8) (hReserved : bits &&& 0x80 = 0)
    (hNft : bits &&& hasNft ≠ 0) (hCapability : bits &&& 0x0f = capability.bits) :
    hasNft ||| capability.bits |||
          (if bits &&& hasCommitmentLength ≠ 0 then hasCommitmentLength
          else 0) |||
        (if bits &&& hasAmount ≠ 0 then hasAmount else 0) =
      bits := by
  revert bits
  apply forall_byte
  cases capability with
  | none => decide +kernel
  | mutable => decide +kernel
  | minting => decide +kernel

theorem Valid.bitfield_eq (hValid : frame.Valid) : frame.token.bitfield = frame.bitfield := by
  have hFramed := frame.nft_framed
  have hCommitment := hValid.commitment_iff
  have hAmount := hValid.amount_iff
  unfold TokenData.commitment at hCommitment
  unfold TokenData.bitfield
  unfold token at hCommitment ⊢
  dsimp only at hCommitment ⊢
  simp only [← hAmount]
  cases hNft : frame.nft with
  | none =>
    rw [hNft] at hFramed
    exact bare_bits frame.bitfield hValid.reserved hFramed.1 (hValid.bare hFramed.1)
  | some nft =>
    rw [hNft] at hFramed hCommitment
    dsimp only at hCommitment ⊢
    simp only [← hCommitment]
    exact nft_bits nft.capability frame.bitfield hValid.reserved hFramed.1
      (Capability.bits_of_fromBits hFramed.2.1)

theorem lengthBytes_eq_nil (hFlag : frame.bitfield &&& hasCommitmentLength = 0) :
    frame.lengthBytes = [] := by
  have hFramed := frame.nft_framed
  cases hNft : frame.nft with
  | none =>
    rw [hNft] at hFramed
    exact hFramed.2
  | some nft =>
    rw [hNft] at hFramed
    have hCommitment := hFramed.2.2
    unfold CommitmentFramed at hCommitment
    rw [if_neg (not_not_intro hFlag)] at hCommitment
    exact hCommitment.1

theorem Valid.lengthBytes_eq (hValid : frame.Valid) :
    frame.lengthBytes =
      if frame.token.commitment ≠ [] then varint (UInt64.ofNat frame.token.commitment.length)
      else [] := by
  split
  · rename_i hNonempty
    exact (hValid.commitment (hValid.commitment_iff.mpr hNonempty)).1
  · rename_i hEmpty
    rw [← hValid.commitment_iff, not_not] at hEmpty
    exact lengthBytes_eq_nil hEmpty

theorem Valid.amountBytes_eq (hValid : frame.Valid) :
    frame.amountBytes =
      if 0 < frame.amount then varint frame.amount else [] := by
  split
  · rename_i hPositive
    exact (hValid.amount (hValid.amount_iff.mpr hPositive)).1
  · rename_i hZero
    rw [← hValid.amount_iff, not_not] at hZero
    have hFramed := frame.amount_framed
    unfold AmountFramed at hFramed
    rw [if_neg (not_not_intro hZero)] at hFramed
    exact hFramed.1

theorem Valid.length_le (hValid : frame.Valid) : frame.token.commitment.length ≤ 40 := by
  by_cases hEmpty : frame.token.commitment = []
  · rw [hEmpty]
    exact Nat.zero_le 40
  · exact (hValid.commitment (hValid.commitment_iff.mpr hEmpty)).2.2

theorem no_content_bits (bits : UInt8) (hNft : bits &&& hasNft = 0)
    (hAmount : bits &&& hasAmount = 0) : bits &&& (hasNft ||| hasAmount) = 0 := by
  revert bits
  apply forall_byte
  decide +kernel

theorem Valid.content (hValid : frame.Valid) :
    ¬ (frame.token.amount = 0 ∧ frame.token.nft = none) := by
  rintro ⟨hAmount, hNone⟩
  apply hValid.carries
  apply no_content_bits
  · have hFramed := frame.nft_framed
    change frame.nft = none at hNone
    rw [hNone] at hFramed
    exact hFramed.1
  · by_contra hFlag
    have hPositive := hValid.amount_iff.mp hFlag
    change frame.amount = 0 at hAmount
    rw [hAmount] at hPositive
    exact absurd hPositive (by decide)

/- A valid frame is what its token encodes to. -/
theorem Valid.encodePrefix (hValid : frame.Valid) : frame.token.encodePrefix = .ok frame.bytes := by
  have hShort := hValid.length_le
  unfold TokenData.encodePrefix
  rw [if_neg hValid.content, if_neg (by omega), hValid.bitfield_eq]
  unfold PrefixFrame.bytes
  rw [hValid.amountBytes_eq, hValid.lengthBytes_eq]
  have hCategory : frame.token.category.reverse = frame.category :=
    Vector.reverse_reverse frame.category
  have hAmount : frame.token.amount = frame.amount := rfl
  rw [hCategory, hAmount]
  by_cases hEmpty : frame.token.commitment = []
  · rw [hEmpty, if_neg (not_not_intro rfl)]
    rfl
  · rw [if_pos hEmpty, if_pos hEmpty, List.append_assoc]

end PrefixFrame

namespace TokenData

/-
  What is accepted encodes to the bytes it was read from, and exactly the bytes that start with a
  valid prefix are accepted.
-/
def PrefixCanonical (bytes : List UInt8) : Prop :=
  (∀ token used,
        decodePrefix bytes = .ok (token, used) → token.encodePrefix = .ok (bytes.take used)) ∧
    ((∃ token used, decodePrefix bytes = .ok (token, used)) ↔ ∃ frame : PrefixFrame,
      frame.bytes <+: bytes ∧ frame.Valid)

theorem decodePrefix_canonical_iff (bytes : List UInt8) :
    PrefixCanonical bytes ↔ ∀ frame : PrefixFrame, frame.bytes <+: bytes → frame.Valid := by
  constructor
  · rintro ⟨-, hAccepts⟩ frame hFrame
    have hRead : ∃ token used, decodePrefix bytes = .ok (token, used) :=
      ⟨_, _, decodePrefix_eq_ok_iff.mpr ⟨frame, hFrame, rfl, rfl⟩⟩
    rcases hAccepts.mp hRead with ⟨frame', hFrame', hValid⟩
    rw [PrefixFrame.unique hFrame hFrame']
    exact hValid
  · intro hAll
    constructor
    · intro token used hRead
      rcases decodePrefix_eq_ok_iff.mp hRead with ⟨frame, hFrame, rfl, rfl⟩
      rw [(hAll frame hFrame).encodePrefix, ← List.prefix_iff_eq_take.mp hFrame]
    · constructor
      · rintro ⟨token, used, hRead⟩
        rcases decodePrefix_eq_ok_iff.mp hRead with ⟨frame, hFrame, -, -⟩
        exact ⟨frame, hFrame, hAll frame hFrame⟩
      · rintro ⟨frame, hFrame, -⟩
        exact ⟨_, _, decodePrefix_eq_ok_iff.mpr ⟨frame, hFrame, rfl, rfl⟩⟩

/-
  An amount of one in a varint of three bytes is accepted.
-/
theorem decodePrefix_accepts_wide_varint : ¬ ∀ bytes, PrefixCanonical bytes := by
  intro hAlways
  have hAccepted :
      decodePrefix (prefixToken :: (List.replicate 32 0 ++ [hasAmount, 0xfd, 0x01, 0x00])) = .ok
          ({ category := Vector.replicate 32 0
             amount := 1
             nft := none }, 37) := by
    decide +kernel
  have hEncoded := (hAlways _).1 _ _ hAccepted
  revert hEncoded
  decide +kernel

end TokenData

--- Encoded Prefixes

theorem compactLayout_anyWidth_varint (value : UInt64) :
    compactLayout anyWidth value (varint value) := by
  rcases compactLayout_varint (.protocol "") value with ⟨first, payload, hBytes, hLength, hValue, -⟩
  exact ⟨first, payload, hBytes, hLength, hValue, rfl⟩

namespace TokenData

/- The bits of a non-fungible token, read back one by one. -/
theorem nft_flags (capability : Capability) (withCommitment withAmount : Prop)
    [Decidable withCommitment] [Decidable withAmount] {bits : UInt8}
    (hBits :
      bits = hasNft ||| capability.bits |||
            (if withCommitment then hasCommitmentLength else 0) |||
          (if withAmount then hasAmount else 0)) :
    bits &&& hasNft ≠ 0 ∧
      Capability.fromBits bits = .ok capability ∧
        (bits &&& hasCommitmentLength ≠ 0 ↔ withCommitment) ∧
          (bits &&& hasAmount ≠ 0 ↔ withAmount) := by
  subst hBits
  by_cases hCommitment : withCommitment <;>
    by_cases hAmount : withAmount <;>
      simp only [hCommitment, hAmount, if_true, if_false, iff_true, iff_false] <;>
        cases capability <;>
          decide

theorem bare_flags (withAmount : Prop) [Decidable withAmount] {bits : UInt8}
    (hBits : bits = 0 ||| (if withAmount then hasAmount else 0)) :
    bits &&& hasNft = 0 ∧ (bits &&& hasAmount ≠ 0 ↔ withAmount) := by
  subst hBits
  by_cases hAmount : withAmount <;>
    simp only [hAmount, if_true, if_false, iff_true, iff_false] <;>
      decide

theorem bitfield_amount (token : TokenData) :
    token.bitfield &&& hasAmount ≠ 0 ↔ 0 < token.amount := by
  unfold bitfield
  cases token.nft with
  | none => exact (bare_flags _ rfl).2
  | some nft => exact (nft_flags nft.capability _ _ rfl).2.2.2

theorem bitfield_nft_framed (token : TokenData) (hShort : token.commitment.length ≤ 40) :
    NftFramed token.bitfield
      (if token.commitment ≠ [] then varint (UInt64.ofNat token.commitment.length)
      else [])
      token.nft := by
  unfold bitfield commitment at *
  cases hNft : token.nft with
  | none => exact ⟨(bare_flags _ rfl).1, if_neg (by simp)⟩
  | some nft =>
    rw [hNft] at hShort
    dsimp only at hShort ⊢
    rcases nft_flags nft.capability (nft.commitment ≠ []) (0 < token.amount) rfl with
      ⟨hFlag, hCapability, hCommitment, -⟩
    refine ⟨hFlag, hCapability, ?_⟩
    unfold CommitmentFramed
    by_cases hEmpty : nft.commitment = []
    · rw [if_neg (by rw [hCommitment]; simp [hEmpty]), if_neg (by simp [hEmpty])]
      exact ⟨rfl, hEmpty⟩
    · rw [if_pos (hCommitment.mpr hEmpty), if_pos hEmpty]
      refine ⟨_, compactLayout_anyWidth_varint _, ?_⟩
      rw [UInt64.toNat_ofNat', Nat.mod_eq_of_lt]
      omega

theorem bitfield_amount_framed (token : TokenData) :
    AmountFramed token.bitfield
      (if 0 < token.amount then varint token.amount else [])
      token.amount := by
  unfold AmountFramed
  by_cases hPositive : 0 < token.amount
  · rw [if_pos (token.bitfield_amount.mpr hPositive), if_pos hPositive]
    exact compactLayout_anyWidth_varint _
  · rw [if_neg (mt token.bitfield_amount.mp hPositive), if_neg hPositive]
    refine ⟨rfl, ?_⟩
    rw [UInt64.lt_iff_toNat_lt, Nat.not_lt] at hPositive
    exact UInt64.toNat_inj.mp (Nat.le_zero.mp hPositive)

variable {token : TokenData} {bytes : List UInt8} (hEncode : token.encodePrefix = .ok bytes)
include hEncode

/- The frame of what a token encodes to. -/
theorem encodePrefix_frame : ∃ frame : PrefixFrame, frame.token = token ∧ frame.bytes = bytes := by
  unfold encodePrefix at hEncode
  split at hEncode
  · cases hEncode
  split at hEncode
  · cases hEncode
  rename_i hLong
  cases hEncode
  refine
    ⟨{ category := token.category.reverse
       bitfield := token.bitfield
       lengthBytes :=
        if token.commitment ≠ [] then varint (UInt64.ofNat token.commitment.length)
        else []
       nft := token.nft
       amountBytes :=
        if 0 < token.amount then varint token.amount else []
       amount := token.amount
       nft_framed := bitfield_nft_framed token (by omega)
       amount_framed := bitfield_amount_framed token }, ?_, ?_⟩
  · rcases token with ⟨category, amount, nft⟩
    unfold PrefixFrame.token
    rw [Vector.reverse_reverse]
  · have hToken (frame : PrefixFrame) (hNft : frame.nft = token.nft) :
        frame.token.commitment = token.commitment := by
      unfold commitment PrefixFrame.token
      rw [hNft]
    unfold PrefixFrame.bytes
    rw [hToken _ rfl]
    by_cases hEmpty : token.commitment = []
    · simp [hEmpty]
    · simp [hEmpty]

/- Whatever follows a prefix, its token is read back. -/
theorem decodePrefix_encodePrefix (tail : List UInt8) :
    decodePrefix (bytes ++ tail) = .ok (token, bytes.length) := by
  rcases encodePrefix_frame hEncode with ⟨frame, rfl, rfl⟩
  rw [decodePrefix_eq_ok_iff]
  exact ⟨frame, List.prefix_append _ _, rfl, rfl⟩

theorem head?_encodePrefix (tail : List UInt8) : (bytes ++ tail).head? = some prefixToken := by
  rcases encodePrefix_frame hEncode with ⟨frame, -, rfl⟩
  rfl

/- A prefix belongs to one token. -/
theorem encodePrefix_injective {token' : TokenData} (hEncode' : token'.encodePrefix = .ok bytes) :
    token = token' := by
  have hRead := decodePrefix_encodePrefix hEncode []
  rw [decodePrefix_encodePrefix hEncode' []] at hRead
  exact (Prod.mk.inj (Except.ok.inj hRead)).1.symm

end TokenData

end OptnWallet
