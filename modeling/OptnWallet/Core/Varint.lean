import OptnWallet.Core.HeaderPow
import OptnWallet.Library.ByteFormat

/-
  The integers of serialized transactions: little-endian words of fixed width and variable-length
  counts.

  Main declarations:
    * `varint`
    * `compactSize`
    * `readsAs_compactSize`
-/

--- Errors

namespace OptnWallet

inductive CliError where
  | usage (message : String)
  | network (message : String)
  | protocol (message : String)
  | server (message : String)
  | internal (message : String)
deriving DecidableEq

/- The message, which is all that is displayed. -/
def CliError.toString : CliError → String
  | usage message => message
  | network message => message
  | protocol message => message
  | server message => message
  | internal message => message

--- Little-Endian Words

@[simp]
theorem length_bytesLE (value count : Nat) : (bytesLE value count).length = count := by
  unfold bytesLE
  rw [List.length_map, List.length_range]

theorem bytesLE_succ (value count : Nat) :
    bytesLE value (count + 1) = UInt8.ofNat (value % 256) :: bytesLE (value / 256) count := by
  unfold bytesLE
  rw [List.range_succ_eq_map, List.map_cons, List.map_map, Nat.pow_zero, Nat.div_one]
  congr 1
  apply List.map_congr_left
  intro i _
  rw [Function.comp_apply, Nat.div_div_eq_div_mul, Nat.pow_succ, Nat.mul_comm 256]

theorem natOfBytesLE_cons (byte : UInt8) (bytes : List UInt8) :
    natOfBytesLE (byte :: bytes) = byte.toNat + 256 * natOfBytesLE bytes := rfl

theorem natOfBytesLE_lt (bytes : List UInt8) : natOfBytesLE bytes < 256 ^ bytes.length := by
  induction bytes with
  | nil => decide
  | cons byte bytes ih =>
    have hByte := byte.toNat_lt
    rw [natOfBytesLE_cons, List.length_cons, Nat.pow_succ]
    omega

theorem natOfBytesLE_bytesLE {value count : Nat} (hValue : value < 256 ^ count) :
    natOfBytesLE (bytesLE value count) = value := by
  induction count generalizing value with
  | zero =>
    rw [Nat.pow_zero, Nat.lt_one_iff] at hValue
    rw [hValue]
    rfl
  | succ count ih =>
    rw [Nat.pow_succ] at hValue
    have hLow : value % 256 < 2 ^ 8 := by omega
    have hByte : (UInt8.ofNat (value % 256)).toNat = value % 256 := UInt8.toNat_ofNat_of_lt hLow
    rw [bytesLE_succ, natOfBytesLE_cons, ih (by omega), hByte]
    omega

theorem bytesLE_natOfBytesLE (bytes : List UInt8) :
    bytesLE (natOfBytesLE bytes) bytes.length = bytes := by
  induction bytes with
  | nil => rfl
  | cons byte bytes ih =>
    have hByte := byte.toNat_lt
    have hLow : (byte.toNat + 256 * natOfBytesLE bytes) % 256 = byte.toNat := by omega
    have hHigh : (byte.toNat + 256 * natOfBytesLE bytes) / 256 = natOfBytesLE bytes := by omega
    rw [List.length_cons, bytesLE_succ, natOfBytesLE_cons, hLow, hHigh, ih, UInt8.ofNat_toNat]

--- Variable-Length Integers

open ByteFormat

/- Bitcoin's variable-length integer. -/
def varint (n : UInt64) : List UInt8 :=
  if n ≤ 0xfc then [n.toUInt8]
  else if n ≤ 0xffff then 0xfd :: bytesLE n.toNat 2
  else if n ≤ 0xffffffff then 0xfe :: bytesLE n.toNat 4
  else 0xff :: bytesLE n.toNat 8

/- How many bytes follow the first one. -/
def payloadWidth (first : UInt8) : Nat :=
  if first ≤ 0xfc then 0
  else if first = 0xfd then 2
  else if first = 0xfe then 4
  else 8

def compactValue (first : UInt8) (payload : List UInt8) : UInt64 :=
  if first ≤ 0xfc then first.toUInt64
  else UInt64.ofNat (natOfBytesLE payload)

/- The least value that needs the width of a first byte. -/
def compactMinimum (first : UInt8) : UInt64 :=
  if first = 0xfd then 0xfd
  else if first = 0xfe then 0x10000
  else if first = 0xff then 0x100000000
  else 0

/- The value is one that needs its width. -/
def minimal (error : CliError) (first : UInt8) (value : UInt64) : Except CliError Unit :=
  if value < compactMinimum first then .error error
  else .ok ()

/-
  The variable-length integer as each parser reads it: with its own error for bytes that end early
  and its own check of the value.
-/
def compactSize (truncated : CliError) (check : UInt8 → UInt64 → Except CliError Unit) :
    Reader CliError UInt64 := do
  let first ← Reader.takeByte truncated
  let payload ← Reader.take truncated (payloadWidth first)
  let value := compactValue first payload
  Reader.lift (check first value)
  return value

/- The bytes of a value at any width that its first byte announces. -/
def compactLayout (check : UInt8 → UInt64 → Except CliError Unit) : Layout UInt64 :=
  fun value bytes => ∃ first payload,
      bytes = first :: payload ∧
        payload.length = payloadWidth first ∧
        value = compactValue first payload ∧
        check first value = .ok ()

theorem readsAs_compactSize (truncated : CliError) (check : UInt8 → UInt64 → Except CliError Unit) :
    ReadsAs (compactSize truncated check) (compactLayout check) := by
  unfold compactSize
  apply ((ReadsAs.takeByte truncated).bind fun first =>
    (ReadsAs.take truncated (payloadWidth first)).bind fun payload =>
    (ReadsAs.lift (check first (compactValue first payload))).bind fun _ => ReadsAs.pure
    (compactValue first payload)).congr
  intro value bytes
  constructor
  · rintro ⟨first, _, _, rfl, rfl, payload, _, _, rfl,
      ⟨rfl, hLength⟩, _, _, _, rfl, ⟨hCheck, rfl⟩, rfl, rfl⟩
    refine ⟨first, payload, ?_, hLength, rfl, hCheck⟩
    simp
  · rintro ⟨first, payload, rfl, hLength, rfl, hCheck⟩
    exact ⟨first, [first], payload, rfl, rfl, payload, payload, [], (List.append_nil _).symm,
      ⟨rfl, hLength⟩, (), [], [], rfl, ⟨hCheck, rfl⟩, rfl, rfl⟩

variable {value : UInt64} {error : CliError} {first : UInt8}

theorem minimal_eq_ok_iff :
    minimal error first value = .ok () ↔ (compactMinimum first).toNat ≤ value.toNat := by
  unfold minimal
  split
  · rename_i hLess
    rw [UInt64.lt_iff_toNat_lt] at hLess
    simp
    omega
  · rename_i hNot
    rw [UInt64.lt_iff_toNat_lt] at hNot
    simp
    omega

variable {payload : List UInt8}

/- A payload is the little-endian form of its value. -/
theorem payload_iff {width : Nat} (hWidth : width ≤ 8) :
    payload.length = width ∧ value = UInt64.ofNat (natOfBytesLE payload) ↔
    payload = bytesLE value.toNat width ∧ value.toNat < 256 ^ width := by
  have hPower : 256 ^ width ≤ 256 ^ 8 := Nat.pow_le_pow_right (by decide) hWidth
  constructor
  · rintro ⟨rfl, rfl⟩
    have hLt := natOfBytesLE_lt payload
    have hValue : (UInt64.ofNat (natOfBytesLE payload)).toNat = natOfBytesLE payload := by
      rw [UInt64.toNat_ofNat', Nat.mod_eq_of_lt]
      exact lt_of_lt_of_le hLt hPower
    rw [hValue, bytesLE_natOfBytesLE]
    exact ⟨rfl, hLt⟩
  · rintro ⟨rfl, hLt⟩
    rw [length_bytesLE, natOfBytesLE_bytesLE hLt, UInt64.ofNat_toNat]
    exact ⟨rfl, rfl⟩

/-
  A first byte above 0xfc announces the little-endian form of the value in its width.
-/
theorem compactLayout_wide_iff {check : UInt8 → UInt64 → Except CliError Unit}
    (hFirst : ¬ first ≤ 0xfc) :
    compactLayout check value (first :: payload) ↔
    payload = bytesLE value.toNat (payloadWidth first) ∧
      value.toNat < 256 ^ payloadWidth first ∧
      check first value = .ok () := by
  have hWidth : payloadWidth first ≤ 8 := by
    unfold payloadWidth
    split_ifs <;> decide
  rw [← and_assoc, ← payload_iff hWidth]
  unfold compactLayout compactValue
  constructor
  · rintro ⟨_, _, hBytes, hLength, hValue, hCheck⟩
    cases hBytes
    rw [if_neg hFirst] at hValue
    exact ⟨⟨hLength, hValue⟩, hCheck⟩
  · rintro ⟨⟨hLength, hValue⟩, hCheck⟩
    refine ⟨first, payload, rfl, hLength, ?_, hCheck⟩
    rw [if_neg hFirst]
    exact hValue

theorem compactLayout_narrow_iff {check : UInt8 → UInt64 → Except CliError Unit}
    (hFirst : first ≤ 0xfc) :
    compactLayout check value (first :: payload) ↔
    payload = [] ∧ value = first.toUInt64 ∧ check first value = .ok () := by
  unfold compactLayout compactValue payloadWidth
  constructor
  · rintro ⟨_, _, hBytes, hLength, hValue, hCheck⟩
    cases hBytes
    rw [if_pos hFirst] at hLength hValue
    exact ⟨List.length_eq_zero_iff.mp hLength, hValue, hCheck⟩
  · rintro ⟨rfl, hValue, hCheck⟩
    refine ⟨first, [], rfl, ?_, ?_, hCheck⟩
    · rw [if_pos hFirst]
      rfl
    · rw [if_pos hFirst]
      exact hValue

/- The four widths, by the size of the value. -/
theorem varint_eq (n : UInt64) :
    varint n =
      if n.toNat ≤ 252 then [n.toUInt8]
      else if n.toNat ≤ 65535 then 0xfd :: bytesLE n.toNat 2
      else if n.toNat ≤ 4294967295 then 0xfe :: bytesLE n.toNat 4
      else 0xff :: bytesLE n.toNat 8 := by
  unfold varint
  simp only [UInt64.le_iff_toNat_le]
  rfl

theorem compactMinimum_narrow (hFirst : first ≤ 0xfc) : compactMinimum first = 0 := by
  unfold compactMinimum
  split_ifs with hWord hLong hWide
  · subst hWord
    exact absurd hFirst (by decide)
  · subst hLong
    exact absurd hFirst (by decide)
  · subst hWide
    exact absurd hFirst (by decide)
  · rfl

theorem compactLayout_varint (error : CliError) (value : UInt64) :
    compactLayout (minimal error) value (varint value) := by
  have hLt := value.toNat_lt
  rw [varint_eq]
  split_ifs with hByte hWord hLong
  · have hFirst : value.toUInt8.toNat = value.toNat := by
      rw [UInt64.toNat_toUInt8, Nat.mod_eq_of_lt]
      omega
    have hNarrow : value.toUInt8 ≤ 0xfc := by
      rw [UInt8.le_iff_toNat_le, hFirst]
      exact hByte
    rw [compactLayout_narrow_iff hNarrow, minimal_eq_ok_iff, compactMinimum_narrow hNarrow]
    refine ⟨rfl, ?_, Nat.zero_le _⟩
    rw [← UInt64.toNat_inj, UInt8.toNat_toUInt64, hFirst]
  · rw [compactLayout_wide_iff (by decide), minimal_eq_ok_iff]
    refine ⟨rfl, ?_, ?_⟩
    · change value.toNat < 65536
      omega
    · change 253 ≤ value.toNat
      omega
  · rw [compactLayout_wide_iff (by decide), minimal_eq_ok_iff]
    refine ⟨rfl, ?_, ?_⟩
    · change value.toNat < 4294967296
      omega
    · change 65536 ≤ value.toNat
      omega
  · rw [compactLayout_wide_iff (by decide), minimal_eq_ok_iff]
    refine ⟨rfl, hLt, ?_⟩
    change 4294967296 ≤ value.toNat
    omega

theorem varint_of_compactLayout {bytes : List UInt8}
    (hLayout : compactLayout (minimal error) value bytes) : bytes = varint value := by
  rcases hLayout with ⟨first, payload, rfl, hParts⟩
  have hLayout : compactLayout (minimal error) value (first :: payload) :=
    ⟨first, payload, rfl, hParts⟩
  have hFirst := first.toNat_lt
  rw [varint_eq]
  by_cases hNarrow : first ≤ 0xfc
  · rw [compactLayout_narrow_iff hNarrow] at hLayout
    rcases hLayout with ⟨rfl, rfl, -⟩
    rw [UInt8.le_iff_toNat_le] at hNarrow
    change first.toNat ≤ 252 at hNarrow
    rw [UInt8.toNat_toUInt64, if_pos hNarrow, UInt8.toUInt8_toUInt64]
  · rw [compactLayout_wide_iff hNarrow, minimal_eq_ok_iff] at hLayout
    rcases hLayout with ⟨rfl, hLt, hMinimum⟩
    by_cases hWord : first = 0xfd
    · subst hWord
      change value.toNat < 65536 at hLt
      change 253 ≤ value.toNat at hMinimum
      rw [if_neg (by omega), if_pos (by omega)]
      rfl
    by_cases hLong : first = 0xfe
    · subst hLong
      change value.toNat < 4294967296 at hLt
      change 65536 ≤ value.toNat at hMinimum
      rw [if_neg (by omega), if_neg (by omega), if_pos (by omega)]
      rfl
    have hWide : first = 0xff := by
      rw [UInt8.le_iff_toNat_le] at hNarrow
      change ¬ first.toNat ≤ 252 at hNarrow
      rw [← UInt8.toNat_inj] at hWord hLong ⊢
      change first.toNat ≠ 253 at hWord
      change first.toNat ≠ 254 at hLong
      change first.toNat = 255
      omega
    subst hWide
    change 4294967296 ≤ value.toNat at hMinimum
    rw [if_neg (by omega), if_neg (by omega), if_neg (by omega)]
    rfl

/- Exactly the shortest bytes pass the check. -/
theorem compactLayout_minimal_iff {bytes : List UInt8} :
    compactLayout (minimal error) value bytes ↔ bytes = varint value := by
  constructor
  · exact varint_of_compactLayout
  · rintro rfl
    exact compactLayout_varint error value

end OptnWallet
