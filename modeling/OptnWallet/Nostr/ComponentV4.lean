import OptnWallet.Core.HexText
import OptnWallet.Fusion.Messages
import OptnWallet.Nostr.Allocation

/-
  The component plane of fusions between peers: the bytes of an input or an output, which a blind
  credential covers. Hexadecimal text is read by a library that accepts any text, one byte for
  each two characters.

  Main declarations:
    * `Nostr.encodeInputComponent`
    * `Nostr.encodeOutputComponent`
    * `Nostr.encodeInputComponent_eq_ok_iff`
    * `Nostr.encodeOutputComponent_eq_ok_iff`
-/

--- Numbers and Fields

namespace OptnWallet

open Fusion.Schema

namespace Nostr

open StagedUpdate

/- Groups of seven bits, the lowest one first.  There are no more groups than the number says. -/
def writeGroups : Nat → Nat → List UInt8
  | 0, v => [UInt8.ofNat v]
  | fuel + 1, v =>
    if 0x80 ≤ v then UInt8.ofNat ((v &&& 0x7f) ||| 0x80) :: writeGroups fuel (v >>> 7)
    else [UInt8.ofNat v]

/- The shift by no bits keeps the lowest 32 bits only. -/
def writeVarint (n : Int) : Except String (List UInt8) :=
  if !isSafeInteger n ∨ n < 0 then .error "varint out of range"
  else
    let v := n.toNat % 2 ^ 32
    .ok (writeGroups v v)

def writeVarintBig (n : Int) : Except String (List UInt8) :=
  if n < 0 then .error "varint negative"
  else .ok (writeGroups n.toNat n.toNat)

def tag (field wireType : Nat) : Except String (List UInt8) :=
  writeVarint ((field <<< 3) ||| wireType : Nat)

def lenDelim (field : Nat) (bytes : List UInt8) : Except String (List UInt8) := do
  let key ← tag field 2
  let length ← writeVarint bytes.length
  .ok (key ++ length ++ bytes)

/- Letters outside of ASCII are no digits in either case. -/
def toLowerCase (text : String) : String := String.ofList (text.toList.map Char.toLower)

--- Components

structure InputArgs where
  prevTxidDisplayHex : String
  prevIndex : Int
  pubkeyHex : String
  amount : Int
  saltCommitmentHex : String
deriving DecidableEq

structure OutputArgs where
  scriptHex : String
  amount : Int
  saltCommitmentHex : String
deriving DecidableEq

variable (hexToBin : String → List UInt8) (sha256 : List UInt8 → Vector UInt8 32)

def displayTxidToWire (prevTxidDisplayHex : String) : Except String (List UInt8) :=
  let display := hexToBin (toLowerCase prevTxidDisplayHex)
  if display.length ≠ 32 then .error "prevTxid must be 32 bytes"
  else .ok display.reverse

def encodeInputComponent (args : InputArgs) : Except String (List UInt8) :=
  let saltCommitment := hexToBin (toLowerCase args.saltCommitmentHex)
  let pubkey := hexToBin (toLowerCase args.pubkeyHex)
  if saltCommitment.length ≠ 32 then .error "saltCommitment must be 32 bytes"
  else if pubkey.length < 1 ∨ 65 < pubkey.length then .error "pubkey length out of range"
  else if !isSafeInteger args.prevIndex ∨ args.prevIndex < 0 then .error "prevIndex invalid"
  else if !isSafeInteger args.amount ∨ args.amount < 0 then .error "amount invalid"
  else do
    let prevWire ← displayTxidToWire hexToBin args.prevTxidDisplayHex
    let txidField ← lenDelim 1 prevWire
    let indexTag ← tag 2 0
    let index ← writeVarint args.prevIndex
    let pubkeyField ← lenDelim 3 pubkey
    let amountTag ← tag 4 0
    let amount ← writeVarintBig args.amount
    let saltField ← lenDelim 1 saltCommitment
    let inputField ←
      lenDelim 2 (txidField ++ indexTag ++ index ++ pubkeyField ++ amountTag ++ amount)
    .ok (saltField ++ inputField)

def encodeOutputComponent (args : OutputArgs) : Except String (List UInt8) :=
  let saltCommitment := hexToBin (toLowerCase args.saltCommitmentHex)
  let script := hexToBin (toLowerCase args.scriptHex)
  if saltCommitment.length ≠ 32 then .error "saltCommitment must be 32 bytes"
  else if script.length < 1 ∨ 10000 < script.length then .error "script length out of range"
  else if !isSafeInteger args.amount ∨ args.amount < 0 then .error "amount invalid"
  else do
    let scriptField ← lenDelim 1 script
    let amountTag ← tag 2 0
    let amount ← writeVarintBig args.amount
    let saltField ← lenDelim 1 saltCommitment
    let outputField ← lenDelim 3 (scriptField ++ amountTag ++ amount)
    .ok (saltField ++ outputField)

def componentBlindMessageHash (componentBytes : List UInt8) : Except String (Vector UInt8 32) :=
  if componentBytes.length = 0 then .error "component bytes must be non-empty"
  else if 200 * 1024 < componentBytes.length then
    .error "component bytes exceed fusion max message size"
  else .ok (sha256 componentBytes)

def inputComponentBlindMessage (args : InputArgs) : Except String (Vector UInt8 32) := do
  let bytes ← encodeInputComponent hexToBin args
  componentBlindMessageHash sha256 bytes

def outputComponentBlindMessage (args : OutputArgs) : Except String (Vector UInt8 32) := do
  let bytes ← encodeOutputComponent hexToBin args
  componentBlindMessageHash sha256 bytes

/- The hash of the salt and the component behind it. -/
def saltedComponentHashHex (saltHex : String) (componentBytes : List UInt8) :
    Except String String :=
  let salt := hexToBin (toLowerCase saltHex)
  if salt.length ≠ 32 then .error "salt must be 32 bytes"
  else if componentBytes.length = 0 ∨ 200 * 1024 < componentBytes.length then
    .error "component bytes length is invalid"
  else .ok (hexString (sha256 (salt ++ componentBytes)).toList)

--- The Bytes of the Schema

theorem or_128 {low : Nat} (hLt : low < 128) : low ||| 0x80 = low + 128 := by
  have hAll : ∀ low < 128, low ||| 0x80 = low + 128 := by decide
  exact hAll low hLt

/- By induction over the fuel. -/
theorem writeGroups_eq (fuel v : Nat) : writeGroups fuel v = Protobuf.groups fuel v := by
  induction fuel generalizing v with
  | zero => rfl
  | succ fuel ih =>
    unfold writeGroups Protobuf.groups
    by_cases hLt : v < 128
    · rw [if_neg (by omega), if_pos hLt]
    · have hLow : v &&& 0x7f = v % 128 := Nat.and_two_pow_sub_one_eq_mod v 7
      rw [if_pos (by omega), if_neg hLt, ih, hLow, or_128 (Nat.mod_lt v (by decide)),
        Nat.shiftRight_eq_div_pow]

theorem writeVarint_eq {n : Int} (hSafe : isSafeInteger n = true) (hNonneg : 0 ≤ n) :
    writeVarint n = .ok (Protobuf.varint (n.toNat % 2 ^ 32)) := by
  unfold writeVarint
  rw [if_neg]
  · exact congrArg Except.ok (writeGroups_eq _ _)
  · rw [hSafe]
    rw [not_or, not_lt]
    exact ⟨by decide, hNonneg⟩

variable {n : Nat}

theorem writeVarint_small (hLt : n < 2 ^ 32) : writeVarint n = .ok (Protobuf.varint n) := by
  have hSafe : isSafeInteger (n : Int) = true := by
    unfold isSafeInteger
    rw [decide_eq_true_eq, Int.natAbs_natCast]
    exact lt_trans hLt (by decide)
  rw [writeVarint_eq hSafe (Int.natCast_nonneg n), Int.toNat_natCast, Nat.mod_eq_of_lt hLt]

theorem lenDelim_eq {field : Nat} {key : UInt8} (hKey : tag field 2 = .ok [key])
    (bytes : List UInt8) (hLength : bytes.length < 2 ^ 32) :
    lenDelim field bytes = .ok (Protobuf.bytesField key bytes) := by
  unfold lenDelim
  rw [hKey, writeVarint_small hLength]
  rfl

/- A number of `count` groups has no more bytes than that. -/
theorem length_groups_le (fuel : Nat) {count : Nat} (hLt : n < 128 ^ (count + 1)) :
    (Protobuf.groups fuel n).length ≤ count + 1 := by
  induction fuel generalizing count n with
  | zero => exact Nat.le_add_left 1 count
  | succ fuel ih =>
    unfold Protobuf.groups
    by_cases hSmall : n < 128
    · rw [if_pos hSmall]
      exact Nat.le_add_left 1 count
    · rw [if_neg hSmall, List.length_cons]
      cases count with
      | zero => exact absurd hLt hSmall
      | succ count =>
        apply Nat.succ_le_succ
        apply ih
        rw [Nat.pow_succ] at hLt
        exact Nat.div_lt_of_lt_mul (by omega)

theorem length_varint_le (hLt : n < 2 ^ 53) : (Protobuf.varint n).length ≤ 8 :=
  length_groups_le n (lt_trans hLt (by decide))

variable {bytes : List UInt8}

theorem length_bytesField_le (key : UInt8) (bound : Nat) (hLength : bytes.length ≤ bound)
    (hBound : bound < 2 ^ 32) : (Protobuf.bytesField key bytes).length ≤ bound + 9 := by
  unfold Protobuf.bytesField
  have hDigits : (Protobuf.varint bytes.length).length ≤ 8 := length_varint_le (by omega)
  rw [List.length_cons, List.length_append]
  omega

/- What the encoder of inputs accepts. -/
structure AcceptsInput (args : InputArgs) : Prop where
  salt : (hexToBin (toLowerCase args.saltCommitmentHex)).length = 32
  pubkey_pos : 1 ≤ (hexToBin (toLowerCase args.pubkeyHex)).length
  pubkey_le : (hexToBin (toLowerCase args.pubkeyHex)).length ≤ 65
  index_safe : isSafeInteger args.prevIndex = true
  index_nonneg : 0 ≤ args.prevIndex
  amount_safe : isSafeInteger args.amount = true
  amount_nonneg : 0 ≤ args.amount
  txid : (hexToBin (toLowerCase args.prevTxidDisplayHex)).length = 32

structure AcceptsOutput (args : OutputArgs) : Prop where
  salt : (hexToBin (toLowerCase args.saltCommitmentHex)).length = 32
  script_pos : 1 ≤ (hexToBin (toLowerCase args.scriptHex)).length
  script_le : (hexToBin (toLowerCase args.scriptHex)).length ≤ 10000
  amount_safe : isSafeInteger args.amount = true
  amount_nonneg : 0 ≤ args.amount

/- The component that is written.  The index is cut to 32 bits. -/
def inputComponent (args : InputArgs) : Fusion.Component :=
  { saltCommitment := hexToBin (toLowerCase args.saltCommitmentHex)
    component :=
      some (.input
          { prevTxid := (hexToBin (toLowerCase args.prevTxidDisplayHex)).reverse
            prevIndex := UInt32.ofNat args.prevIndex.toNat
            pubkey := hexToBin (toLowerCase args.pubkeyHex)
            amount := UInt64.ofNat args.amount.toNat }) }

def outputComponent (args : OutputArgs) : Fusion.Component :=
  { saltCommitment := hexToBin (toLowerCase args.saltCommitmentHex)
    component :=
      some (.output
          { scriptpubkey := hexToBin (toLowerCase args.scriptHex)
            amount := UInt64.ofNat args.amount.toNat }) }

theorem lt_of_isSafeInteger {value : Int} (hSafe : isSafeInteger value = true) :
    value.toNat < 2 ^ 53 := by
  unfold isSafeInteger at hSafe
  rw [decide_eq_true_eq] at hSafe
  omega

theorem writeVarintBig_eq {amount : Int} (hSafe : isSafeInteger amount = true)
    (hNonneg : 0 ≤ amount) :
    writeVarintBig amount = .ok (Protobuf.varint (UInt64.ofNat amount.toNat).toNat) := by
  have hLt := lt_of_isSafeInteger hSafe
  unfold writeVarintBig
  rw [if_neg (not_lt.mpr hNonneg), UInt64.toNat_ofNat_of_lt' (lt_trans hLt (by decide)),
    writeGroups_eq]
  rfl

/- The tags of the fields are single bytes. -/
theorem lenDelim_fields :
    tag 1 2 = .ok [0x0a] ∧ tag 2 2 = .ok [0x12] ∧
      tag 3 2 = .ok [0x1a] ∧ tag 2 0 = .ok [0x10] ∧
      tag 4 0 = .ok [0x20] := ⟨rfl, rfl, rfl, rfl, rfl⟩

variable {args : InputArgs}

theorem length_encodeInput_le (hAccepts : AcceptsInput hexToBin args) :
    (encodeInput
      { prevTxid := (hexToBin (toLowerCase args.prevTxidDisplayHex)).reverse
        prevIndex := UInt32.ofNat args.prevIndex.toNat
        pubkey := hexToBin (toLowerCase args.pubkeyHex)
        amount := UInt64.ofNat args.amount.toNat }).length ≤ 1000 := by
  have hAmount := lt_of_isSafeInteger hAccepts.amount_safe
  have hTxid : (hexToBin (toLowerCase args.prevTxidDisplayHex)).reverse.length ≤ 32 := by
    rw [List.length_reverse, hAccepts.txid]
  have hFirst := length_bytesField_le 0x0a 32 hTxid (by decide)
  have hSecond : (Protobuf.varint (UInt32.ofNat args.prevIndex.toNat).toNat).length ≤ 8 :=
    length_varint_le (lt_trans (UInt32.toNat_lt _) (by decide))
  have hThird := length_bytesField_le 0x1a 65 hAccepts.pubkey_le (by decide)
  have hFourth : (Protobuf.varint (UInt64.ofNat args.amount.toNat).toNat).length ≤ 8 := by
    rw [UInt64.toNat_ofNat_of_lt' (lt_trans hAmount (by decide))]
    exact length_varint_le hAmount
  unfold encodeInput Protobuf.uintField
  dsimp only
  rw
    [List.length_append, List.length_append, List.length_append, List.length_cons, List.length_cons]
  omega

theorem encodeInputComponent_of_accepts (hAccepts : AcceptsInput hexToBin args) :
    encodeInputComponent hexToBin args = .ok (encodeComponent (inputComponent hexToBin args)) := by
  rcases lenDelim_fields with ⟨hOne, hTwo, hThree, hIndexTag, hAmountTag⟩
  have hSalt := hAccepts.salt
  have hTxid := hAccepts.txid
  have hPubkey := hAccepts.pubkey_pos
  have hPubkeyLe := hAccepts.pubkey_le
  have hWire :
      displayTxidToWire hexToBin args.prevTxidDisplayHex =
        .ok (hexToBin (toLowerCase args.prevTxidDisplayHex)).reverse := by
    unfold displayTxidToWire
    exact if_neg (not_not.mpr hTxid)
  have hIndex :
      writeVarint args.prevIndex =
        .ok (Protobuf.varint (UInt32.ofNat args.prevIndex.toNat).toNat) := by
    rw [writeVarint_eq hAccepts.index_safe hAccepts.index_nonneg, UInt32.toNat_ofNat']
  have hAmount := writeVarintBig_eq hAccepts.amount_safe hAccepts.amount_nonneg
  have hTxidField :=
    lenDelim_eq hOne (hexToBin (toLowerCase args.prevTxidDisplayHex)).reverse
      (by rw [List.length_reverse, hTxid]; decide)
  have hPubkeyField := lenDelim_eq hThree (hexToBin (toLowerCase args.pubkeyHex)) (by omega)
  have hSaltField :=
    lenDelim_eq hOne (hexToBin (toLowerCase args.saltCommitmentHex)) (by rw [hSalt]; decide)
  have hInputField :=
    lenDelim_eq hTwo _ (lt_of_le_of_lt (length_encodeInput_le hexToBin hAccepts) (by decide))
  have hBody :
      Protobuf.bytesField 0x0a (hexToBin (toLowerCase args.prevTxidDisplayHex)).reverse ++ [0x10] ++
        Protobuf.varint (UInt32.ofNat args.prevIndex.toNat).toNat ++
        Protobuf.bytesField 0x1a (hexToBin (toLowerCase args.pubkeyHex)) ++
      [0x20] ++
    Protobuf.varint (UInt64.ofNat args.amount.toNat).toNat = encodeInput
        { prevTxid := (hexToBin (toLowerCase args.prevTxidDisplayHex)).reverse
          prevIndex := UInt32.ofNat args.prevIndex.toNat
          pubkey := hexToBin (toLowerCase args.pubkeyHex)
          amount := UInt64.ofNat args.amount.toNat } := by
    unfold encodeInput Protobuf.uintField
    simp [List.append_assoc]
  unfold encodeInputComponent
  dsimp only
  rw [if_neg (not_not.mpr hSalt), if_neg (by omega),
    if_neg (not_or.mpr ⟨by rw [hAccepts.index_safe]; decide, not_lt.mpr hAccepts.index_nonneg⟩),
    if_neg (not_or.mpr ⟨by rw [hAccepts.amount_safe]; decide, not_lt.mpr hAccepts.amount_nonneg⟩),
    bind_of_ok hWire, bind_of_ok hTxidField, bind_of_ok hIndexTag, bind_of_ok hIndex,
    bind_of_ok hPubkeyField, bind_of_ok hAmountTag, bind_of_ok hAmount,
    bind_of_ok hSaltField, hBody, bind_of_ok hInputField]
  rfl

theorem accepts_of_encodeInputComponent (hEncode : encodeInputComponent hexToBin args = .ok bytes) :
    AcceptsInput hexToBin args := by
  unfold encodeInputComponent at hEncode
  dsimp only at hEncode
  split at hEncode
  · cases hEncode
  rename_i hSalt
  split at hEncode
  · cases hEncode
  rename_i hPubkey
  split at hEncode
  · cases hEncode
  rename_i hIndex
  split at hEncode
  · cases hEncode
  rename_i hAmount
  rw [bind_eq_ok_iff] at hEncode
  rcases hEncode with ⟨prevWire, hWire, -⟩
  unfold displayTxidToWire at hWire
  dsimp only at hWire
  split at hWire
  · cases hWire
  rename_i hTxid
  rw [not_or, not_lt] at hPubkey hIndex hAmount
  constructor
  · exact not_not.mp hSalt
  · exact hPubkey.1
  · exact not_lt.mp hPubkey.2
  · simpa using hIndex.1
  · exact hIndex.2
  · simpa using hAmount.1
  · exact hAmount.2
  · exact not_not.mp hTxid

/- Everything that is accepted is written as the schema says. -/
theorem encodeInputComponent_eq_ok_iff :
    encodeInputComponent hexToBin args = .ok bytes ↔
    AcceptsInput hexToBin args ∧ bytes = encodeComponent (inputComponent hexToBin args) := by
  constructor
  · intro hEncode
    have hAccepts := accepts_of_encodeInputComponent hexToBin hEncode
    rw [encodeInputComponent_of_accepts hexToBin hAccepts] at hEncode
    exact ⟨hAccepts, (Except.ok.inj hEncode).symm⟩
  · intro hBoth
    rw [hBoth.2]
    exact encodeInputComponent_of_accepts hexToBin hBoth.1

theorem length_encodeOutput_le {args : OutputArgs} (hAccepts : AcceptsOutput hexToBin args) :
    (encodeOutput
      { scriptpubkey := hexToBin (toLowerCase args.scriptHex)
        amount := UInt64.ofNat args.amount.toNat }).length ≤ 11000 := by
  have hAmount := lt_of_isSafeInteger hAccepts.amount_safe
  have hFirst := length_bytesField_le 0x0a 10000 hAccepts.script_le (by decide)
  have hSecond : (Protobuf.varint (UInt64.ofNat args.amount.toNat).toNat).length ≤ 8 := by
    rw [UInt64.toNat_ofNat_of_lt' (lt_trans hAmount (by decide))]
    exact length_varint_le hAmount
  unfold encodeOutput Protobuf.uintField
  dsimp only
  rw [List.length_append, List.length_cons]
  omega

theorem encodeOutputComponent_of_accepts {args : OutputArgs}
    (hAccepts : AcceptsOutput hexToBin args) :
    encodeOutputComponent hexToBin args =
      .ok (encodeComponent (outputComponent hexToBin args)) := by
  rcases lenDelim_fields with ⟨hOne, -, hThree, hAmountTag, -⟩
  have hSalt := hAccepts.salt
  have hScript := hAccepts.script_pos
  have hScriptLe := hAccepts.script_le
  have hAmount := writeVarintBig_eq hAccepts.amount_safe hAccepts.amount_nonneg
  have hScriptField := lenDelim_eq hOne (hexToBin (toLowerCase args.scriptHex)) (by omega)
  have hSaltField :=
    lenDelim_eq hOne (hexToBin (toLowerCase args.saltCommitmentHex)) (by rw [hSalt]; decide)
  have hBody :
      Protobuf.bytesField 0x0a (hexToBin (toLowerCase args.scriptHex)) ++ [0x10] ++
        Protobuf.varint (UInt64.ofNat args.amount.toNat).toNat =
      encodeOutput
        { scriptpubkey := hexToBin (toLowerCase args.scriptHex)
          amount := UInt64.ofNat args.amount.toNat } := by
    unfold encodeOutput Protobuf.uintField
    simp
  have hOutputField :=
    lenDelim_eq hThree _ (lt_of_le_of_lt (length_encodeOutput_le hexToBin hAccepts) (by decide))
  unfold encodeOutputComponent
  dsimp only
  rw [if_neg (not_not.mpr hSalt), if_neg (by omega),
    if_neg (not_or.mpr ⟨by rw [hAccepts.amount_safe]; decide, not_lt.mpr hAccepts.amount_nonneg⟩),
    bind_of_ok hScriptField, bind_of_ok hAmountTag, bind_of_ok hAmount,
    bind_of_ok hSaltField, hBody, bind_of_ok hOutputField]
  rfl

theorem accepts_of_encodeOutputComponent {args : OutputArgs}
    (hEncode : encodeOutputComponent hexToBin args = .ok bytes) : AcceptsOutput hexToBin args := by
  unfold encodeOutputComponent at hEncode
  dsimp only at hEncode
  split at hEncode
  · cases hEncode
  rename_i hSalt
  split at hEncode
  · cases hEncode
  rename_i hScript
  split at hEncode
  · cases hEncode
  rename_i hAmount
  rw [not_or, not_lt] at hScript hAmount
  constructor
  · exact not_not.mp hSalt
  · exact hScript.1
  · exact not_lt.mp hScript.2
  · simpa using hAmount.1
  · exact hAmount.2

theorem encodeOutputComponent_eq_ok_iff {args : OutputArgs} :
    encodeOutputComponent hexToBin args = .ok bytes ↔
    AcceptsOutput hexToBin args ∧ bytes = encodeComponent (outputComponent hexToBin args) := by
  constructor
  · intro hEncode
    have hAccepts := accepts_of_encodeOutputComponent hexToBin hEncode
    rw [encodeOutputComponent_of_accepts hexToBin hAccepts] at hEncode
    exact ⟨hAccepts, (Except.ok.inj hEncode).symm⟩
  · intro hBoth
    rw [hBoth.2]
    exact encodeOutputComponent_of_accepts hexToBin hBoth.1

--- Lengths

/- What the hash of a component takes. -/
def Fits (bytes : List UInt8) : Prop := bytes.length ≠ 0 ∧ bytes.length ≤ 200 * 1024

theorem componentBlindMessageHash_of_fits (hFits : Fits bytes) :
    componentBlindMessageHash sha256 bytes = .ok (sha256 bytes) := by
  unfold componentBlindMessageHash
  rw [if_neg hFits.1, if_neg (not_lt.mpr hFits.2)]

theorem fits_of_part {salt part : List UInt8} (key : UInt8) (hSalt : salt.length = 32)
    (hPart : part.length ≤ 11000) :
    Fits (Protobuf.bytesField 0x0a salt ++ Protobuf.bytesField key part) := by
  have hFirst := length_bytesField_le 0x0a 32 (le_of_eq hSalt) (by decide)
  have hSecond := length_bytesField_le key 11000 hPart (by decide)
  constructor
  · intro hZero
    rw [List.length_append, Nat.add_eq_zero_iff] at hZero
    exact Protobuf.bytesField_ne_nil 0x0a salt (List.length_eq_zero_iff.mp hZero.1)
  · rw [List.length_append]
    omega

theorem encodeInputComponent_fits (hEncode : encodeInputComponent hexToBin args = .ok bytes) :
    Fits bytes := by
  rcases (encodeInputComponent_eq_ok_iff hexToBin).mp hEncode with ⟨hAccepts, rfl⟩
  exact
    fits_of_part 0x12 hAccepts.salt (le_trans (length_encodeInput_le hexToBin hAccepts) (by decide))

theorem encodeOutputComponent_fits {args : OutputArgs}
    (hEncode : encodeOutputComponent hexToBin args = .ok bytes) : Fits bytes := by
  rcases (encodeOutputComponent_eq_ok_iff hexToBin).mp hEncode with ⟨hAccepts, rfl⟩
  exact fits_of_part 0x1a hAccepts.salt (length_encodeOutput_le hexToBin hAccepts)

end Nostr

end OptnWallet
