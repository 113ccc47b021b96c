import Mathlib.Algebra.BigOperators.Group.List.Basic
import Mathlib.Algebra.Order.Ring.Nat
import Mathlib.Data.List.Lex
import Mathlib.Data.Nat.Bitwise
import Mathlib.Tactic.Positivity
import Mathlib.Tactic.Ring

/-
  Unsigned machine words and arrays of bytes as linear orders, with the checked, saturating and
  wrapping operations that programs use on them.

  Bit counts of a 64-bit word are structural recursions on the number of bits still to be read, so
  that they evaluate, with the equations that inductions on binary representations consume.

  Main declarations:
    * the `LinearOrder` instances of `UInt8`, `UInt32`, `UInt64` and `Vector UInt8 n`
    * `Word32.tryFrom` and `Word32.checkedSub`
    * `Word32.saturatingAdd` and `Word32.saturatingSub`
    * `Word64.checkedMul`, `Word64.checkedSub` and `Word64.divCeil`
    * `WordSums.total`
    * `WordSums.checkedSum` and `checkedSum_eq_none_iff`
    * `WordSums.wrappingSum` and `toNat_wrappingSum`
    * `Word64.trailingOnes`, `Word64.countOnes` and `Word64.bitWidth`
-/

--- Bytes

namespace ByteOrder

instance instLinearOrderByte : LinearOrder UInt8 where
  le_refl := UInt8.le_refl
  le_trans _ _ _ := UInt8.le_trans
  le_antisymm _ _ := UInt8.le_antisymm
  le_total := UInt8.le_total
  lt_iff_le_not_ge a b := by
    rw [UInt8.le_iff_toNat_le, UInt8.le_iff_toNat_le, UInt8.lt_iff_toNat_lt]
    omega
  toDecidableLE := inferInstance
  toDecidableEq := inferInstance
  toDecidableLT := inferInstance

instance instLinearOrderArray (n : Nat) : LinearOrder (Vector UInt8 n) :=
  LinearOrder.lift' Vector.toList (fun _ _ hSame => Vector.toList_inj.mp hSame)

end ByteOrder

--- Words Of 32 Bits

namespace Word32

instance instLinearOrder : LinearOrder UInt32 where
  le_refl := UInt32.le_refl
  le_trans _ _ _ := UInt32.le_trans
  le_antisymm _ _ := UInt32.le_antisymm
  le_total := UInt32.le_total
  lt_iff_le_not_ge a b := by
    rw [UInt32.le_iff_toNat_le, UInt32.le_iff_toNat_le, UInt32.lt_iff_toNat_lt]
    omega
  toDecidableLE := inferInstance
  toDecidableEq := inferInstance
  toDecidableLT := inferInstance

--- Conversion From Wider Words

/- The word of a natural number that fits into one. -/
def tryFrom (n : Nat) : Option UInt32 :=
  if n < 2 ^ 32 then some (UInt32.ofNat n) else none

variable {word : UInt32}

theorem tryFrom_eq_some {n : Nat} (hWord : tryFrom n = some word) : word.toNat = n := by
  unfold tryFrom at hWord
  split at hWord
  · rename_i hLt
    cases hWord
    exact UInt32.toNat_ofNat_of_lt hLt
  · cases hWord

theorem tryFrom_eq_none_iff (n : Nat) : tryFrom n = none ↔ 2 ^ 32 ≤ n := by
  unfold tryFrom
  split <;> simp <;> omega

@[simp]
theorem tryFrom_toNat (word : UInt32) : tryFrom word.toNat = some word := by
  unfold tryFrom
  rw [if_pos word.toNat_lt, UInt32.ofNat_toNat]

--- Saturating Arithmetic

/- Addition that stops at the largest word. -/
def saturatingAdd (a b : UInt32) : UInt32 :=
  (tryFrom (a.toNat + b.toNat)).getD (UInt32.ofNat (2 ^ 32 - 1))

/- Subtraction that stops at zero. -/
def saturatingSub (a b : UInt32) : UInt32 :=
  if b ≤ a then a - b else 0

/- Subtraction that fails below zero. -/
def checkedSub (a b : UInt32) : Option UInt32 :=
  if b ≤ a then some (a - b) else none

theorem checkedSub_one_eq_some_iff {before : UInt32} :
    checkedSub word 1 = some before ↔ word.toNat = before.toNat + 1 := by
  have hOne : (1 : UInt32).toNat = 1 := rfl
  unfold checkedSub
  split
  · rename_i hLe
    have hSub := UInt32.toNat_sub_of_le _ _ hLe
    rw [UInt32.le_iff_toNat_le] at hLe
    rw [Option.some_inj, ← UInt32.toNat_inj]
    omega
  · rename_i hNot
    rw [UInt32.le_iff_toNat_le] at hNot
    constructor
    · intro hNone
      cases hNone
    · intro hSucc
      omega

theorem toNat_saturatingAdd (a b : UInt32) :
    (saturatingAdd a b).toNat = min (a.toNat + b.toNat) (2 ^ 32 - 1) := by
  unfold saturatingAdd
  cases hWord : tryFrom (a.toNat + b.toNat) with
  | none =>
    have hLarge := (tryFrom_eq_none_iff _).mp hWord
    rw [Option.getD_none, min_eq_right (by omega)]
    rfl
  | some word =>
    have hEq := tryFrom_eq_some hWord
    have hLt := word.toNat_lt
    rw [Option.getD_some, min_eq_left (by omega), hEq]

/- A word takes a count that it has room for. -/
theorem toNat_saturatingAdd_ofNat {count : Nat} (hRoom : word.toNat + count < 2 ^ 32) :
    (saturatingAdd word (UInt32.ofNat count)).toNat = word.toNat + count := by
  have hLt : count < 2 ^ 32 := by omega
  have hCount : (UInt32.ofNat count).toNat = count := UInt32.toNat_ofNat_of_lt hLt
  rw [toNat_saturatingAdd, hCount, min_eq_left]
  omega

theorem toNat_saturatingSub (a b : UInt32) : (saturatingSub a b).toNat = a.toNat - b.toNat := by
  unfold saturatingSub
  split
  · rename_i hLe
    exact UInt32.toNat_sub_of_le _ _ hLe
  · rename_i hNot
    rw [UInt32.le_iff_toNat_le] at hNot
    have hZero : (0 : UInt32).toNat = 0 := rfl
    omega

theorem toNat_max (a b : UInt32) : (max a b).toNat = max a.toNat b.toNat := by
  rcases le_total a b with hLe | hLe
  · rw [max_eq_right hLe, max_eq_right]
    exact UInt32.le_iff_toNat_le.mp hLe
  · rw [max_eq_left hLe, max_eq_left]
    exact UInt32.le_iff_toNat_le.mp hLe

end Word32

--- Words Of 64 Bits

namespace Word64

instance instLinearOrder : LinearOrder UInt64 where
  le_refl := UInt64.le_refl
  le_trans _ _ _ := UInt64.le_trans
  le_antisymm _ _ := UInt64.le_antisymm
  le_total := UInt64.le_total
  lt_iff_le_not_ge a b := by
    rw [UInt64.le_iff_toNat_le, UInt64.le_iff_toNat_le, UInt64.lt_iff_toNat_lt]
    omega
  toDecidableLE := inferInstance
  toDecidableEq := inferInstance
  toDecidableLT := inferInstance

--- Checked Operations

def checkedMul (a b : UInt64) : Option UInt64 :=
  if a.toNat * b.toNat < 2 ^ 64 then some (a * b) else none

def checkedSub (a b : UInt64) : Option UInt64 :=
  if b ≤ a then some (a - b) else none

theorem checkedMul_eq_some {a b c : UInt64} (hMul : checkedMul a b = some c) :
    c.toNat = a.toNat * b.toNat := by
  unfold checkedMul at hMul
  split at hMul
  · rename_i hLt
    cases hMul
    rw [UInt64.toNat_mul, Nat.mod_eq_of_lt hLt]
  · cases hMul

theorem checkedSub_eq_some {a b c : UInt64} (hSub : checkedSub a b = some c) :
    b.toNat ≤ a.toNat ∧ c.toNat = a.toNat - b.toNat := by
  unfold checkedSub at hSub
  split at hSub
  · rename_i hLe
    cases hSub
    rw [UInt64.toNat_sub_of_le _ _ hLe]
    exact ⟨UInt64.le_iff_toNat_le.mp hLe, rfl⟩
  · cases hSub

--- Division

/- A quotient that is rounded up. -/
def divCeil (value divisor : UInt64) : UInt64 :=
  if 0 < value % divisor then value / divisor + 1
  else value / divisor

/- By the remainder of the division: where there is one, the divisor is at least two and one more
   does not wrap. -/
theorem toNat_divCeil {value divisor : UInt64} (hDivisor : 1 < divisor.toNat) :
    (divCeil value divisor).toNat = (value.toNat + (divisor.toNat - 1)) / divisor.toNat := by
  have hValue := value.toNat_lt
  have hSplit := Nat.div_add_mod value.toNat divisor.toNat
  have hMod : value.toNat % divisor.toNat < divisor.toNat := Nat.mod_lt _ (by omega)
  have hHalf : value.toNat / divisor.toNat ≤ value.toNat / 2 :=
    Nat.div_le_div_left hDivisor (by decide)
  unfold divCeil
  symm
  split
  · rename_i hPos
    rw [UInt64.lt_iff_toNat_lt, UInt64.toNat_mod, UInt64.toNat_zero] at hPos
    rw [UInt64.toNat_add, UInt64.toNat_div, UInt64.toNat_one, Nat.mod_eq_of_lt (by omega)]
    apply Nat.div_eq_of_lt_le
    · rw [Nat.add_mul, Nat.mul_comm]
      omega
    · rw [Nat.add_mul, Nat.add_mul, Nat.mul_comm]
      omega
  · rename_i hZero
    rw [UInt64.lt_iff_toNat_lt, UInt64.toNat_mod, UInt64.toNat_zero] at hZero
    rw [UInt64.toNat_div]
    apply Nat.div_eq_of_lt_le
    · rw [Nat.mul_comm]
      omega
    · rw [Nat.add_mul, Nat.mul_comm]
      omega

end Word64

--- Sums

namespace WordSums

/- The sum as a number. -/
def total (words : List UInt64) : Nat := (words.map UInt64.toNat).sum

@[simp]
theorem total_nil : total [] = 0 := rfl

@[simp]
theorem total_cons (word : UInt64) (words : List UInt64) :
    total (word :: words) = word.toNat + total words := by
  unfold total
  rw [List.map_cons, List.sum_cons]

theorem total_concat (words : List UInt64) (word : UInt64) :
    total (words ++ [word]) = total words + word.toNat := by
  unfold total
  rw [List.map_append, List.sum_append, List.map_singleton, List.sum_singleton]

/- Each word is on one side of a test. -/
theorem total_filter_add {α : Type} (word : α → UInt64) (test : α → Bool) (items : List α) :
    total ((items.filter test).map word) +
        total ((items.filter (fun item => !test item)).map word) = total (items.map word) := by
  induction items with
  | nil => rfl
  | cons item items ih =>
    rw [List.map_cons, total_cons]
    cases hTest : test item with
    | true =>
      rw [List.filter_cons_of_pos hTest, List.filter_cons_of_neg (by rw [hTest]; decide),
        List.map_cons, total_cons]
      omega
    | false =>
      rw [List.filter_cons_of_neg (by rw [hTest]; decide),
        List.filter_cons_of_pos (by rw [hTest]; decide), List.map_cons, total_cons]
      omega

--- Checked Sums

def checkedAdd (a b : UInt64) : Option UInt64 :=
  if a.toNat + b.toNat < 2 ^ 64 then some (a + b) else none

theorem checkedAdd_eq_some {a b c : UInt64} (hAdd : checkedAdd a b = some c) :
    c.toNat = a.toNat + b.toNat := by
  unfold checkedAdd at hAdd
  split at hAdd
  · rename_i hLt
    cases hAdd
    rw [UInt64.toNat_add, Nat.mod_eq_of_lt hLt]
  · cases hAdd

/- From a start, one word after the other. -/
def checkedSum (start : UInt64) (words : List UInt64) : Option UInt64 :=
  words.foldlM checkedAdd start

variable {words : List UInt64}

/- The sum is found exactly when it fits.  By induction over the words. -/
theorem checkedSum_eq_none_iff {start : UInt64} :
    checkedSum start words = none ↔ 2 ^ 64 ≤ start.toNat + total words := by
  unfold checkedSum
  induction words generalizing start with
  | nil =>
    have hStart := start.toNat_lt
    simp only [List.foldlM_nil, total_nil, Option.pure_def]
    constructor
    · intro hNone
      cases hNone
    · omega
  | cons word words ih =>
    rw [List.foldlM_cons, total_cons]
    cases hAdd : checkedAdd start word with
    | none =>
      unfold checkedAdd at hAdd
      split at hAdd
      · cases hAdd
      · rename_i hOver
        constructor
        · intro _
          omega
        · intro _
          rfl
    | some sum =>
      have hSum := checkedAdd_eq_some hAdd
      rw [Option.bind_eq_bind, Option.bind_some, ih, hSum, Nat.add_assoc]

theorem checkedSum_eq_some {start sum : UInt64} (hSum : checkedSum start words = some sum) :
    sum.toNat = start.toNat + total words := by
  unfold checkedSum at hSum
  induction words generalizing start with
  | nil =>
    cases hSum
    rw [total_nil, Nat.add_zero]
  | cons word words ih =>
    rw [List.foldlM_cons] at hSum
    cases hAdd : checkedAdd start word with
    | none =>
      rw [hAdd] at hSum
      cases hSum
    | some next =>
      rw [hAdd] at hSum
      rw [ih hSum, checkedAdd_eq_some hAdd, total_cons, Nat.add_assoc]

--- Wrapping Sums

def wrappingSum (words : List UInt64) : UInt64 := words.foldl (· + ·) 0

theorem toNat_foldl_add (start : UInt64) (words : List UInt64) :
    (words.foldl (· + ·) start).toNat = (start.toNat + total words) % 2 ^ 64 := by
  induction words generalizing start with
  | nil => rw [List.foldl_nil, total_nil, Nat.add_zero, Nat.mod_eq_of_lt start.toNat_lt]
  | cons word words ih =>
    rw [List.foldl_cons, ih, total_cons, UInt64.toNat_add, Nat.mod_add_mod, Nat.add_assoc]

/- Nothing is lost where the sum fits. -/
theorem toNat_wrappingSum (hFits : total words < 2 ^ 64) :
    (wrappingSum words).toNat = total words := by
  unfold wrappingSum
  rw [toNat_foldl_add, UInt64.toNat_zero, Nat.zero_add, Nat.mod_eq_of_lt hFits]

end WordSums

--- Trailing Ones

namespace Word64

/- Trailing ones among the lowest `width` bits. -/
def trailingOnesWithin : Nat → Nat → Nat
  | 0, _ => 0
  | width + 1, n =>
    if n % 2 = 1 then trailingOnesWithin width (n / 2) + 1
    else 0

/- `u64::trailing_ones`. -/
def trailingOnes (n : Nat) : Nat := trailingOnesWithin 64 n

variable {width n : Nat}

theorem trailingOnesWithin_succ_width (hWidth : n < 2 ^ width) :
    trailingOnesWithin (width + 1) n = trailingOnesWithin width n := by
  induction width generalizing n with
  | zero =>
    have hZero : n = 0 := by simpa using hWidth
    subst hZero
    rfl
  | succ width ih =>
    have hHalf : n / 2 < 2 ^ width := by
      rw [pow_succ] at hWidth
      omega
    rw [trailingOnesWithin, ih hHalf]
    rfl

@[simp] theorem trailingOnes_two_mul (n : Nat) : trailingOnes (2 * n) = 0 := by
  simp [trailingOnes, trailingOnesWithin]

theorem trailingOnes_two_mul_add_one (hWord : 2 * n + 1 < 2 ^ 64) :
    trailingOnes (2 * n + 1) = trailingOnes n + 1 := by
  have hHalf : (2 * n + 1) / 2 = n := by omega
  have hOdd : (2 * n + 1) % 2 = 1 := by omega
  have hBound : n < 2 ^ 63 := by omega
  unfold trailingOnes
  rw [trailingOnesWithin_succ_width hBound]
  rw [trailingOnesWithin, if_pos hOdd, hHalf]

--- Trailing Zeros And The Lowest Set Bit

/- Trailing zeros among the lowest `width` bits. -/
def trailingZerosWithin : Nat → Nat → Nat
  | 0, _ => 0
  | width + 1, n =>
    if n % 2 = 1 then 0
    else trailingZerosWithin width (n / 2) + 1

/- `u64::trailing_zeros`, which is 64 at zero. -/
def trailingZeros (n : Nat) : Nat := trailingZerosWithin 64 n

variable {k : Nat}

theorem trailingZerosWithin_shifted (n : Nat) (hWidth : k < width) :
    trailingZerosWithin width (2 ^ k * (2 * n + 1)) = k := by
  induction k generalizing width with
  | zero =>
    obtain ⟨width, rfl⟩ := Nat.exists_eq_succ_of_ne_zero (Nat.ne_of_gt hWidth)
    simp [trailingZerosWithin]
  | succ k ih =>
    obtain ⟨width, rfl⟩ := Nat.exists_eq_succ_of_ne_zero (Nat.ne_of_gt (Nat.zero_lt_of_lt hWidth))
    have hEven : 2 ^ (k + 1) * (2 * n + 1) = 2 * (2 ^ k * (2 * n + 1)) := by ring
    rw [trailingZerosWithin, hEven, if_neg (by omega), Nat.mul_div_cancel_left _ (by decide),
      ih (Nat.lt_of_succ_lt_succ hWidth)]

theorem trailingZeros_shifted (n : Nat) (hWord : 2 ^ k * (2 * n + 1) < 2 ^ 64) :
    trailingZeros (2 ^ k * (2 * n + 1)) = k := by
  apply trailingZerosWithin_shifted
  by_contra hLarge
  have hPow : 2 ^ 64 ≤ 2 ^ k := Nat.pow_le_pow_right (by decide) (by omega)
  have hFactor : 2 ^ k ≤ 2 ^ k * (2 * n + 1) := Nat.le_mul_of_pos_right _ (by omega)
  omega

/- `value &= value - 1`: clear the lowest set bit. -/
def clearLowest (n : Nat) : Nat := n &&& (n - 1)

theorem clearLowest_two_mul_add_one (n : Nat) : clearLowest (2 * n + 1) = 2 * n := by
  have hLand := Nat.land_bit true n false n
  simpa [clearLowest, Nat.bit_val] using hLand

theorem clearLowest_two_mul (hPos : 0 < n) : clearLowest (2 * n) = 2 * clearLowest n := by
  have hLand := Nat.land_bit false n true (n - 1)
  have hPred : 2 * n - 1 = 2 * (n - 1) + 1 := by omega
  rw [clearLowest, hPred]
  simpa [clearLowest, Nat.bit_val] using hLand

theorem clearLowest_shifted (k n : Nat) : clearLowest (2 ^ k * (2 * n + 1)) = 2 ^ (k + 1) * n := by
  induction k with
  | zero => simp [clearLowest_two_mul_add_one]
  | succ k ih =>
    have hEven : 2 ^ (k + 1) * (2 * n + 1) = 2 * (2 ^ k * (2 * n + 1)) := by ring
    rw [hEven, clearLowest_two_mul (by positivity), ih]
    ring

--- Population Count

/- Ones among the lowest `width` bits. -/
def countOnesWithin : Nat → Nat → Nat
  | 0, _ => 0
  | width + 1, n => n % 2 + countOnesWithin width (n / 2)

/- `u64::count_ones`. -/
def countOnes (n : Nat) : Nat := countOnesWithin 64 n

@[simp] theorem countOnesWithin_zero (width : Nat) : countOnesWithin width 0 = 0 := by
  induction width with
  | zero => rfl
  | succ width ih => simp [countOnesWithin, ih]

theorem countOnesWithin_succ_width (hWidth : n < 2 ^ width) :
    countOnesWithin (width + 1) n = countOnesWithin width n := by
  induction width generalizing n with
  | zero =>
    have hZero : n = 0 := by simpa using hWidth
    subst hZero
    rfl
  | succ width ih =>
    have hHalf : n / 2 < 2 ^ width := by
      rw [pow_succ] at hWidth
      omega
    rw [countOnesWithin, ih hHalf]
    rfl

@[simp] theorem countOnes_zero : countOnes 0 = 0 := countOnesWithin_zero 64

theorem countOnes_two_mul (hWord : 2 * n < 2 ^ 64) : countOnes (2 * n) = countOnes n := by
  have hBound : n < 2 ^ 63 := by omega
  unfold countOnes
  rw [countOnesWithin_succ_width hBound, countOnesWithin, Nat.mul_mod_right, Nat.zero_add,
    Nat.mul_div_cancel_left _ (by decide)]

theorem countOnes_two_mul_add_one (hWord : 2 * n + 1 < 2 ^ 64) :
    countOnes (2 * n + 1) = countOnes n + 1 := by
  have hHalf : (2 * n + 1) / 2 = n := by omega
  have hOdd : (2 * n + 1) % 2 = 1 := by omega
  have hBound : n < 2 ^ 63 := by omega
  unfold countOnes
  rw [countOnesWithin_succ_width hBound, countOnesWithin, hHalf, hOdd, Nat.add_comm]

--- Bit Width

/- Leading zeros of a word of `width` bits. -/
def leadingZerosWithin : Nat → Nat → Nat
  | 0, _ => 0
  | width + 1, n =>
    if 2 ^ width ≤ n then 0
    else leadingZerosWithin width n + 1

/- `u64::leading_zeros`. -/
def leadingZeros (n : Nat) : Nat := leadingZerosWithin 64 n

/- `u64::BITS - value.leading_zeros()`. -/
def bitWidth (n : Nat) : Nat := 64 - leadingZeros n

theorem leadingZerosWithin_eq (hLower : 2 ^ k ≤ n) (hUpper : n < 2 ^ (k + 1)) (hWidth : k < width) :
    leadingZerosWithin width n = width - 1 - k := by
  induction width with
  | zero => omega
  | succ width ih =>
    rw [leadingZerosWithin]
    rcases Nat.lt_succ_iff_lt_or_eq.mp hWidth with hBelow | rfl
    · have hPow : 2 ^ (k + 1) ≤ 2 ^ width := Nat.pow_le_pow_right (by decide) hBelow
      rw [if_neg (by omega), ih hBelow]
      omega
    · rw [if_pos hLower]
      omega

theorem bitWidth_eq (hLower : 2 ^ k ≤ n) (hUpper : n < 2 ^ (k + 1)) (hWord : n < 2 ^ 64) :
    bitWidth n = k + 1 := by
  have hIndex : k < 64 := by
    by_contra hLarge
    have hPow : 2 ^ 64 ≤ 2 ^ k := Nat.pow_le_pow_right (by decide) (by omega)
    omega
  rw [bitWidth, leadingZeros, leadingZerosWithin_eq hLower hUpper hIndex]
  omega

@[simp] theorem bitWidth_zero : bitWidth 0 = 0 := rfl

theorem bitWidth_le (n : Nat) : bitWidth n ≤ 64 := Nat.sub_le 64 _

/- A word lies below two to the power of its bit width. -/
theorem lt_two_pow_bitWidth (hWord : n < 2 ^ 64) : n < 2 ^ bitWidth n := by
  rcases Nat.eq_zero_or_pos n with rfl | hPos
  · decide
  · have hLower : 2 ^ Nat.log2 n ≤ n := Nat.log2_self_le (Nat.ne_of_gt hPos)
    have hUpper : n < 2 ^ (Nat.log2 n + 1) := Nat.lt_log2_self
    rw [bitWidth_eq hLower hUpper hWord]
    exact hUpper

/- A positive word reaches half of that power. -/
theorem two_pow_bitWidth_le (hPos : 0 < n) (hWord : n < 2 ^ 64) : 2 ^ bitWidth n ≤ 2 * n := by
  have hLower : 2 ^ Nat.log2 n ≤ n := Nat.log2_self_le (Nat.ne_of_gt hPos)
  rw [bitWidth_eq hLower Nat.lt_log2_self hWord, pow_succ]
  omega

theorem bitWidth_le_of_lt (hWord : n < 2 ^ 64) (hLt : n < 2 ^ k) : bitWidth n ≤ k := by
  rcases Nat.eq_zero_or_pos n with rfl | hPos
  · simp
  · have hLower := two_pow_bitWidth_le hPos hWord
    by_contra hLarge
    have hPow : 2 ^ (k + 1) ≤ 2 ^ bitWidth n := Nat.pow_le_pow_right (by decide) (by omega)
    rw [pow_succ] at hPow
    omega

end Word64
