import OptnWallet.Core.Cashaddr
import OptnWallet.Library.TappedRegister

/-
  The checksum of an address.  The register shifts linearly, so a checksum of the symbols with
  zeros behind them makes the register of the symbols with that checksum vanish.

  Main declarations:
    * `register` and `polymod_eq_feed`
    * `polymod_checksum` and `checks_unique`
    * `polymod_replaced`
-/

--- Linearity

namespace OptnWallet.Cashaddr

theorem byteAnd_xor (a b c : UInt8) : (a ^^^ b) &&& c = (a &&& c) ^^^ (b &&& c) := by
  apply UInt8.toNat_inj.mp
  rw [UInt8.toNat_and, UInt8.toNat_xor, UInt8.toNat_xor, UInt8.toNat_and, UInt8.toNat_and,
    Nat.and_xor_distrib_right]

/- What a mask of one bit leaves. -/
theorem and_singleBit {mask : UInt8} {i : Nat} (hMask : mask.toBitVec = BitVec.twoPow 8 i)
    (x : UInt8) : x &&& mask = 0 ∨ x &&& mask = mask := by
  rw [← UInt8.toBitVec_inj, ← UInt8.toBitVec_inj, UInt8.toBitVec_and, hMask, BitVec.and_twoPow]
  split
  · right
    rfl
  · left
    rfl

/- The constant of a bit, where the bit is set. -/
def tap (mask : UInt8) (constant : UInt64) (c0 : UInt8) : UInt64 :=
  if c0 &&& mask ≠ 0 then constant else 0

theorem tap_xor {mask : UInt8} {i : Nat} (hMask : mask.toBitVec = BitVec.twoPow 8 i)
    (constant : UInt64) (a b : UInt8) :
    tap mask constant (a ^^^ b) = tap mask constant a ^^^ tap mask constant b := by
  unfold tap
  rw [byteAnd_xor]
  rcases and_singleBit hMask a with hA | hA <;>
    rcases and_singleBit hMask b with hB | hB <;>
    by_cases hZero : mask = 0 <;>
    simp [hA, hB, hZero]

/- The five constants, by the bits that left the register. -/
def taps (c0 : UInt8) : UInt64 :=
  tap 0x01 0x98f2bc8e61 c0 ^^^ tap 0x02 0x79b76d99e2 c0 ^^^ tap 0x04 0xf33e5fb3c4 c0 ^^^
    tap 0x08 0xae2eabe2a8 c0 ^^^ tap 0x10 0x1e4f43e470 c0

theorem taps_xor (a b : UInt8) : taps (a ^^^ b) = taps a ^^^ taps b := by
  unfold taps
  rw [@tap_xor 0x01 0 rfl, @tap_xor 0x02 1 rfl, @tap_xor 0x04 2 rfl, @tap_xor 0x08 3 rfl,
    @tap_xor 0x10 4 rfl]
  ac_rfl

/- The lowest digit of the constants is the digit that left the register. -/
theorem taps_low {c0 : UInt8} (hDigit : c0.toNat < 2 ^ 5) : (taps c0).toNat % 2 ^ 5 = c0.toNat := by
  have hAll : ∀ digit < 2 ^ 5, (taps (UInt8.ofNat digit)).toNat % 2 ^ 5 = digit := by decide +kernel
  have hHere := hAll c0.toNat hDigit
  rw [UInt8.ofNat_toNat] at hHere
  exact hHere

theorem tap_lt {constant : UInt64} (hConstant : constant.toNat < 2 ^ 40) (mask c0 : UInt8) :
    (tap mask constant c0).toNat < 2 ^ 40 := by
  unfold tap
  split
  · exact hConstant
  · decide

theorem taps_lt (c0 : UInt8) : (taps c0).toNat < 2 ^ 40 := by
  unfold taps
  apply TappedRegister.xor_lt
  · apply TappedRegister.xor_lt
    · apply TappedRegister.xor_lt
      · apply TappedRegister.xor_lt
        · exact tap_lt (by decide) _ _
        · exact tap_lt (by decide) _ _
      · exact tap_lt (by decide) _ _
    · exact tap_lt (by decide) _ _
  · exact tap_lt (by decide) _ _

/- The register of an address. -/
def register : TappedRegister where
  taps := fun top => taps top.toUInt8
  linear := by
    intro a b
    rw [UInt64.toUInt8_xor, taps_xor]
  lt := by
    intro a
    exact taps_lt a.toUInt8
  low := by
    intro a hDigit hLow
    have hNat : a.toUInt8.toNat = a.toNat := by
      rw [UInt64.toNat_toUInt8]
      omega
    rw [taps_low (by omega), hNat] at hLow
    exact UInt64.toNat_inj.mp hLow

theorem polymodShift_eq (c : UInt64) : polymodShift c = register.shift c := by
  have hTaps : register.shift c = ((c &&& 0x07ffffffff) <<< 5) ^^^ taps (c >>> 35).toUInt8 := rfl
  rw [hTaps]
  unfold polymodShift taps tap
  ac_rfl

theorem polymod_eq_feed (values : List UInt8) :
    polymod values = register.feed 1 (values.map UInt8.toUInt64) ^^^ 1 := by
  have hShift : polymodShift = register.shift := funext polymodShift_eq
  unfold polymod TappedRegister.feed LinearRegister.feed
  rw [List.foldl_map, hShift]

--- Bounds

theorem toUInt64_lt (symbol : UInt8) : symbol.toUInt64.toNat < 2 ^ 40 := by
  rw [UInt8.toNat_toUInt64]
  exact lt_trans symbol.toNat_lt (by decide)

variable (symbols : List UInt8)

theorem symbol_lt : ∀ symbol ∈ symbols.map UInt8.toUInt64, symbol.toNat < 2 ^ 40 := by
  intro symbol hMem
  rcases List.mem_map.mp hMem with ⟨value, -, rfl⟩
  exact toUInt64_lt value

theorem feed_lt (symbols : List UInt8) :
    (register.feed 1 (symbols.map UInt8.toUInt64)).toNat < 2 ^ 40 :=
  TappedRegister.feed_lt (by decide) (symbol_lt symbols)

theorem polymod_lt (values : List UInt8) : (polymod values).toNat < 2 ^ 40 := by
  rw [polymod_eq_feed]
  exact TappedRegister.xor_lt (feed_lt values) (by decide)

variable {digits : List UInt8}

/- Digits, as the register is fed them. -/
theorem digit_lt (hSmall : ∀ digit ∈ digits, digit.toNat < 2 ^ 5) :
    ∀ digit ∈ digits.map UInt8.toUInt64, digit.toNat < 2 ^ 5 := by
  intro digit hMem
  rcases List.mem_map.mp hMem with ⟨value, hValue, rfl⟩
  rw [UInt8.toNat_toUInt64]
  exact hSmall value hValue

theorem toNat_toUInt64 (digits : List UInt8) :
    (digits.map UInt8.toUInt64).map UInt64.toNat = digits.map UInt8.toNat := by
  rw [List.map_map]
  apply List.map_congr_left
  intro digit _
  exact UInt8.toNat_toUInt64 digit

theorem value_lt (hSmall : ∀ digit ∈ digits, digit.toNat < 2 ^ 5) :
    DigitRegroup.value (2 ^ 5) (digits.map UInt8.toNat) < (2 ^ 5) ^ digits.length := by
  have hLt := TappedRegister.value_lt (digit_lt hSmall)
  rw [toNat_toUInt64, List.length_map] at hLt
  exact hLt

theorem feed_digits (hSmall : ∀ digit ∈ digits, digit.toNat < 2 ^ 5) (hLength : digits.length ≤ 8) :
    (register.feed 0 (digits.map UInt8.toUInt64)).toNat =
      DigitRegroup.value (2 ^ 5) (digits.map UInt8.toNat) := by
  rw [← toNat_toUInt64]
  apply TappedRegister.feed_digits (digit_lt hSmall)
  rw [List.length_map]
  exact hLength

--- The Digits Of A Checksum

/- What digits make of the register: what zeros make of it, and what the digits make of nothing. -/
theorem polymod_append (symbols checks : List UInt8) :
    polymod (symbols ++ checks) = polymod (symbols ++ List.replicate checks.length 0) ^^^
        register.feed 0 (checks.map UInt8.toUInt64) := by
  have hSplit :=
    @TappedRegister.feed_eq_xor register (register.feed 1 (symbols.map UInt8.toUInt64))
      (checks.map UInt8.toUInt64)
  have hZero : (0 : UInt8).toUInt64 = 0 := by decide
  rw [List.length_map] at hSplit
  rw [polymod_eq_feed, polymod_eq_feed, List.map_append, List.map_append,
    TappedRegister.feed_append, TappedRegister.feed_append, List.map_replicate, hSplit, hZero]
  ac_rfl

theorem polymod_eq_zero_iff {checks : List UInt8} (hLength : checks.length = 8) :
    polymod (symbols ++ checks) = 0 ↔
    register.feed 0 (checks.map UInt8.toUInt64) = polymod (symbols ++ List.replicate 8 0) := by
  rw [polymod_append, hLength, UInt64.xor_eq_zero_iff, eq_comm]

variable (poly : UInt64)

theorem checksumDigits_length : (checksumDigits poly).length = 8 := by
  unfold checksumDigits
  rw [List.length_map, List.length_range]

/- They are the digits of the register. -/
theorem checksumDigits_eq :
    (checksumDigits poly).map UInt8.toUInt64 = TappedRegister.digits poly := by
  unfold checksumDigits TappedRegister.digits
  rw [List.map_map]
  apply List.map_congr_left
  intro i _
  apply UInt64.toNat_inj.mp
  dsimp only [Function.comp]
  rw [UInt8.toNat_toUInt64, UInt64.toNat_toUInt8, TappedRegister.toNat_digit,
    Nat.mod_mod_of_dvd' (by decide)]

theorem checksumDigits_lt : ∀ digit ∈ checksumDigits poly, digit.toNat < 2 ^ 5 := by
  intro digit hMem
  have hSame : digit.toUInt64 ∈ TappedRegister.digits poly := by
    rw [← checksumDigits_eq]
    exact List.mem_map_of_mem hMem
  have hLt := TappedRegister.digits_lt poly _ hSame
  rw [UInt8.toNat_toUInt64] at hLt
  exact hLt

theorem feed_checksum :
    register.feed 0 ((checksumDigits (polymod (symbols ++ List.replicate 8 0))).map UInt8.toUInt64)
        = polymod (symbols ++ List.replicate 8 0) := by
  rw [checksumDigits_eq]
  exact TappedRegister.feed_digits_word (polymod_lt _)

/-
  Whatever the symbols are, with the checksum of the symbols and eight zeros behind them they are
  accepted.
-/
theorem polymod_checksum :
    polymod (symbols ++ checksumDigits (polymod (symbols ++ List.replicate 8 0))) = 0 :=
  (polymod_eq_zero_iff symbols (checksumDigits_length _)).mpr (feed_checksum symbols)

--- No Other Digits

/-
  The eight digits that make a register vanish are its checksum.
-/
theorem checks_unique {symbols checks : List UInt8} (hSmall : ∀ digit ∈ checks, digit.toNat < 2 ^ 5)
    (hLength : checks.length = 8) (hAccepts : polymod (symbols ++ checks) = 0) :
    checks = checksumDigits (polymod (symbols ++ List.replicate 8 0)) := by
  have hFeed :=
    ((polymod_eq_zero_iff symbols hLength).mp hAccepts).trans (feed_checksum symbols).symm
  have hOther := checksumDigits_length (polymod (symbols ++ List.replicate 8 0))
  have hDigits :
      checks.map UInt8.toUInt64 =
        (checksumDigits (polymod (symbols ++ List.replicate 8 0))).map UInt8.toUInt64 := by
    apply
      TappedRegister.feed_symbols_inj (digit_lt hSmall) (digit_lt (checksumDigits_lt _)) ?_ ?_ hFeed
    · rw [List.length_map, List.length_map, hLength, hOther]
    · rw [List.length_map, hLength]
  exact List.map_injective_iff.mpr (fun _ _ hEq => UInt8.toUInt64_inj.mp hEq) hDigits

--- One Other Symbol

/- What is in front of the same symbols is told apart. -/
theorem polymod_front {front front' symbols : List UInt8}
    (hEq : polymod (front ++ symbols) = polymod (front' ++ symbols)) :
    polymod front = polymod front' := by
  rw [polymod_eq_feed, polymod_eq_feed, UInt64.xor_left_inj, List.map_append, List.map_append,
    TappedRegister.feed_append, TappedRegister.feed_append] at hEq
  rw [polymod_eq_feed, polymod_eq_feed,
    TappedRegister.feed_contents_inj (feed_lt front) (feed_lt front') (symbol_lt symbols) hEq]

/-
  Symbols that are accepted are not accepted with one of them replaced by another.
-/
theorem polymod_replaced {front back : List UInt8} {a b : UInt8}
    (hEq : polymod (front ++ a :: back) = polymod (front ++ b :: back)) : a = b := by
  rw [polymod_eq_feed, polymod_eq_feed, UInt64.xor_left_inj] at hEq
  rw [List.map_append, List.map_append, TappedRegister.feed_append, TappedRegister.feed_append,
    List.map_cons, List.map_cons, TappedRegister.feed_cons, TappedRegister.feed_cons] at hEq
  have hContents :=
    TappedRegister.feed_contents_inj
      (TappedRegister.xor_lt (TappedRegister.shift_lt _) (toUInt64_lt a))
      (TappedRegister.xor_lt (TappedRegister.shift_lt _) (toUInt64_lt b)) (symbol_lt back) hEq
  exact UInt8.toUInt64_inj.mp ((UInt64.xor_right_inj _).mp hContents)

end OptnWallet.Cashaddr
