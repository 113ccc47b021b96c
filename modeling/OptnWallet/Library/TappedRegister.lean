import Mathlib.Data.List.Basic
import Mathlib.Data.List.Induction
import OptnWallet.Library.DigitRegroup

/-
  A register that is fed symbol by symbol: its content is stepped and the symbol is added, for a
  step that is linear in that addition.

  The linear register of eight digits of five bits, in a word, adds the taps of the digit that
  leaves it.  No two short runs of digits make the same of such a register.

  Main declarations:
    * `LinearRegister.feed` and `LinearRegister.Linear`
    * `LinearRegister.feed_eq_add`
    * `LinearRegister.feed_injOn`
    * `TappedRegister` and `TappedRegister.shift`
    * `TappedRegister.feed_digits`
    * `TappedRegister.feed_symbols_inj`
    * `TappedRegister.feed_run_ne`
-/

namespace LinearRegister

variable {σ : Type} (add : σ → σ → σ)

def feed (step : σ → σ) (content : σ) (symbols : List σ) : σ :=
  symbols.foldl (fun content symbol => add (step content) symbol) content

def Linear (step : σ → σ) : Prop := ∀ a b, step (add a b) = add (step a) (step b)

variable {add} {step : σ → σ}

@[simp]
theorem feed_cons (content symbol : σ) (symbols : List σ) :
    feed add step content (symbol :: symbols) = feed add step (add (step content) symbol) symbols :=
  rfl

theorem feed_append (content : σ) (front back : List σ) :
    feed add step content (front ++ back) = feed add step (feed add step content front) back :=
  List.foldl_append

/- What holds of the content after every step and symbol. -/
theorem feed_invariant {P Symbol : σ → Prop}
    (hStep : ∀ content symbol, P content → Symbol symbol → P (add (step content) symbol))
    {content : σ} (hContent : P content) {symbols : List σ}
    (hSymbols : ∀ symbol ∈ symbols, Symbol symbol) : P (feed add step content symbols) := by
  induction symbols generalizing content with
  | nil => exact hContent
  | cons symbol symbols ih =>
    rw [feed_cons]
    apply ih
    · exact hStep content symbol hContent (hSymbols symbol List.mem_cons_self)
    · intro other hOther
      exact hSymbols other (List.mem_cons_of_mem _ hOther)

/- The sum of two contents is fed as the second one, with the first one stepped on its own.  By
   induction over the symbols. -/
theorem feed_add [Std.Associative add] (hLinear : Linear add step) (a b : σ) (symbols : List σ) :
    feed add step (add a b) symbols = add (step^[symbols.length] a) (feed add step b symbols) := by
  induction symbols generalizing a b with
  | nil => rfl
  | cons symbol symbols ih =>
    rw [feed_cons, feed_cons, hLinear, @Std.Associative.assoc _ add, ih, List.length_cons,
      Function.iterate_succ_apply]

/- Zeros only step the register. -/
theorem feed_zeros {zero : σ} (hZero : ∀ a, add a zero = a) (content : σ) (count : Nat) :
    feed add step content (List.replicate count zero) = step^[count] content := by
  induction count generalizing content with
  | zero => rfl
  | succ count ih => rw [List.replicate_succ, feed_cons, hZero, ih, Function.iterate_succ_apply]

/- What symbols make of a content: what zeros make of it, and what the symbols make of nothing. -/
theorem feed_eq_add [Std.Associative add] (hLinear : Linear add step) {zero : σ}
    (hZero : ∀ a, add a zero = a) (content : σ) (symbols : List σ) :
    feed add step content symbols = add (feed add step content (List.replicate symbols.length zero))
        (feed add step zero symbols) := by
  have hFeed := feed_add hLinear content zero symbols
  rw [hZero] at hFeed
  rw [hFeed, feed_zeros hZero]

/- Fed the same symbols, two contents stay apart where a step keeps them apart.  By induction over
   the symbols. -/
theorem feed_injOn {P : σ → Prop}
    (hKeeps : ∀ content symbol, P symbol → P (add (step content) symbol))
    (hCancel : ∀ a b symbol, add a symbol = add b symbol → a = b)
    (hStep : ∀ a b, P a → P b → step a = step b → a = b) {a b : σ} (hA : P a) (hB : P b)
    {symbols : List σ} (hSymbols : ∀ symbol ∈ symbols, P symbol)
    (hFeed : feed add step a symbols = feed add step b symbols) : a = b := by
  induction symbols generalizing a b with
  | nil => exact hFeed
  | cons symbol symbols ih =>
    have hHere := hSymbols symbol List.mem_cons_self
    rw [feed_cons, feed_cons] at hFeed
    have hNext :=
      ih (hKeeps a symbol hHere) (hKeeps b symbol hHere)
        (fun other hOther => hSymbols other (List.mem_cons_of_mem _ hOther)) hFeed
    exact hStep a b hA hB (hCancel _ _ _ hNext)

end LinearRegister

--- Registers

/- What the digits that leave add.  It is known by its lowest digit. -/
structure TappedRegister where
  taps : UInt64 → UInt64
  linear : ∀ a b, taps (a ^^^ b) = taps a ^^^ taps b
  lt : ∀ a, (taps a).toNat < 2 ^ 40
  low : ∀ a, a.toNat < 2 ^ 5 → (taps a).toNat % 2 ^ 5 = 0 → a = 0

namespace TappedRegister

def shift (register : TappedRegister) (content : UInt64) : UInt64 :=
  ((content &&& 0x07ffffffff) <<< 5) ^^^ register.taps (content >>> 35)

def feed (register : TappedRegister) (content : UInt64) (symbols : List UInt64) : UInt64 :=
  LinearRegister.feed (· ^^^ ·) register.shift content symbols

variable {register : TappedRegister}

@[simp]
theorem feed_nil (content : UInt64) : register.feed content [] = content := rfl

theorem feed_cons (content symbol : UInt64) (symbols : List UInt64) :
    register.feed content (symbol :: symbols) =
      register.feed (register.shift content ^^^ symbol) symbols := rfl

theorem feed_append (content : UInt64) (front back : List UInt64) :
    register.feed content (front ++ back) = register.feed (register.feed content front) back :=
  LinearRegister.feed_append content front back

--- Linearity

theorem and_xor (a b c : UInt64) : (a ^^^ b) &&& c = (a &&& c) ^^^ (b &&& c) := by
  apply UInt64.toNat_inj.mp
  rw [UInt64.toNat_and, UInt64.toNat_xor, UInt64.toNat_xor, UInt64.toNat_and, UInt64.toNat_and,
    Nat.and_xor_distrib_right]

theorem shift_xor : LinearRegister.Linear (· ^^^ ·) register.shift := by
  intro a b
  dsimp only
  unfold shift
  rw [and_xor, UInt64.shiftLeft_xor, UInt64.shiftRight_xor, register.linear]
  ac_rfl

/- What symbols make of a content: what zeros make of it, and what the symbols make of nothing. -/
theorem feed_eq_xor (content : UInt64) (symbols : List UInt64) :
    register.feed content symbols =
      register.feed content (List.replicate symbols.length 0) ^^^ register.feed 0 symbols :=
  LinearRegister.feed_eq_add shift_xor (fun _ => UInt64.xor_zero) content symbols

--- Bounds

variable {a b : UInt64}

theorem xor_lt {n : Nat} (hA : a.toNat < 2 ^ n) (hB : b.toNat < 2 ^ n) :
    (a ^^^ b).toNat < 2 ^ n := by
  rw [UInt64.toNat_xor]
  exact Nat.xor_lt_two_pow hA hB

variable (word : UInt64)

theorem toNat_shiftLeft_five : (word <<< 5).toNat = word.toNat * 2 ^ 5 % 2 ^ 64 := by
  have hFive : (5 : UInt64).toNat % 64 = 5 := by decide
  rw [UInt64.toNat_shiftLeft, hFive, Nat.shiftLeft_eq]

/- The register has forty bits. -/
theorem shift_lt (content : UInt64) : (register.shift content).toNat < 2 ^ 40 := by
  unfold shift
  apply xor_lt
  · have hMasked : (content &&& 0x07ffffffff).toNat < 2 ^ 35 := by
      rw [UInt64.toNat_and]
      exact lt_of_le_of_lt Nat.and_le_right (by decide)
    rw [toNat_shiftLeft_five]
    omega
  · exact register.lt _

theorem feed_lt {content : UInt64} (hContent : content.toNat < 2 ^ 40) {symbols : List UInt64}
    (hSymbols : ∀ symbol ∈ symbols, symbol.toNat < 2 ^ 40) :
    (register.feed content symbols).toNat < 2 ^ 40 := by
  apply
    @LinearRegister.feed_invariant UInt64 (· ^^^ ·)
      register.shift (fun content => content.toNat < 2 ^ 40)
      (fun symbol => symbol.toNat < 2 ^ 40)
  · intro content symbol _ hSymbol
    exact xor_lt (shift_lt content) hSymbol
  · exact hContent
  · exact hSymbols

--- Digits

theorem toNat_shiftRight_ofNat {n : Nat} (hShift : n < 64) :
    (word >>> UInt64.ofNat n).toNat = word.toNat / 2 ^ n := by
  have hAmount : (UInt64.ofNat n).toNat = n :=
    UInt64.toNat_ofNat_of_lt' (lt_trans hShift (by decide))
  rw [UInt64.toNat_shiftRight, hAmount, Nat.mod_eq_of_lt hShift, Nat.shiftRight_eq_div_pow]

theorem toNat_digit : (word &&& 0x1f).toNat = word.toNat % 2 ^ 5 := by
  have hMask : (0x1f : UInt64).toNat = 2 ^ 5 - 1 := by decide
  rw [UInt64.toNat_and, hMask, Nat.and_two_pow_sub_one_eq_mod]

/- The lowest digits and what is above them. -/
theorem shiftLeft_xor_mod (n digits : Nat) :
    (n / 2 ^ digits) <<< digits ^^^ n % 2 ^ digits = n := by
  apply Nat.eq_of_testBit_eq
  intro i
  rw [Nat.testBit_xor, Nat.testBit_shiftLeft, Nat.testBit_div_two_pow, Nat.testBit_mod_two_pow]
  by_cases hLow : i < digits
  · simp [hLow, Nat.not_le.mpr hLow]
  · have hSplit : i - digits + digits = i := by omega
    simp [hLow, hSplit, Nat.le_of_not_lt hLow]

theorem taps_zero : register.taps 0 = 0 := by
  have hSame := register.linear 0 0
  rw [UInt64.xor_self, UInt64.xor_self] at hSame
  exact hSame

/- A register of thirty-five bits is moved up by a digit. -/
theorem shift_small {content digit : UInt64} (hLt : content.toNat < 2 ^ 35)
    (hDigit : digit.toNat < 2 ^ 5) :
    (register.shift content ^^^ digit).toNat = content.toNat * 2 ^ 5 + digit.toNat := by
  have hTop : content >>> 35 = 0 := by
    apply UInt64.toNat_inj.mp
    have hShift := toNat_shiftRight_ofNat content (by decide : 35 < 64)
    exact hShift.trans (Nat.div_eq_of_lt hLt)
  have hMasked : (content &&& 0x07ffffffff).toNat = content.toNat := by
    have hMask : (0x07ffffffff : UInt64).toNat = 2 ^ 35 - 1 := by decide
    rw [UInt64.toNat_and, hMask, Nat.and_two_pow_sub_one_eq_mod, Nat.mod_eq_of_lt hLt]
  have hWhole := shiftLeft_xor_mod (content.toNat * 2 ^ 5 + digit.toNat) 5
  have hHigh : (content.toNat * 2 ^ 5 + digit.toNat) / 2 ^ 5 = content.toNat := by omega
  have hLow : (content.toNat * 2 ^ 5 + digit.toNat) % 2 ^ 5 = digit.toNat := by omega
  rw [hHigh, hLow, Nat.shiftLeft_eq] at hWhole
  unfold shift
  rw [hTop, taps_zero, UInt64.xor_zero, UInt64.toNat_xor,
    toNat_shiftLeft_five, hMasked, Nat.mod_eq_of_lt (by omega), hWhole]

theorem value_lt {digits : List UInt64} (hSmall : ∀ digit ∈ digits, digit.toNat < 2 ^ 5) :
    DigitRegroup.value (2 ^ 5) (digits.map UInt64.toNat) < (2 ^ 5) ^ digits.length := by
  unfold DigitRegroup.value
  rw [← List.length_map UInt64.toNat, ← List.length_reverse]
  apply Nat.ofDigits_lt_base_pow_length (by decide)
  intro digit hMem
  rcases List.mem_map.mp (List.mem_reverse.mp hMem) with ⟨value, hValue, rfl⟩
  exact hSmall value hValue

/- Fed into an empty register, at most eight digits make the number they write.  By induction over
   the digits, from the last one on. -/
theorem feed_digits {digits : List UInt64} (hSmall : ∀ digit ∈ digits, digit.toNat < 2 ^ 5)
    (hLength : digits.length ≤ 8) :
    (register.feed 0 digits).toNat = DigitRegroup.value (2 ^ 5) (digits.map UInt64.toNat) := by
  induction digits using List.reverseRecOn with
  | nil => rfl
  | append_singleton digits digit ih =>
    rw [List.length_append, List.length_singleton] at hLength
    have hFront : ∀ digit ∈ digits, digit.toNat < 2 ^ 5 := by
      intro other hMem
      exact hSmall other (List.mem_append_left _ hMem)
    have hHere : digit.toNat < 2 ^ 5 := by
      apply hSmall
      exact List.mem_append_right _ (List.mem_singleton_self _)
    have hValue := ih hFront (by omega)
    have hBound : DigitRegroup.value (2 ^ 5) (digits.map UInt64.toNat) < 2 ^ 35 := by
      apply lt_of_lt_of_le (value_lt hFront)
      rw [← Nat.pow_mul]
      exact Nat.pow_le_pow_right (by decide) (by omega)
    rw [List.map_append, List.map_singleton, feed_append, feed_cons, feed_nil,
      DigitRegroup.value_concat, ← hValue]
    exact shift_small (hValue.trans_lt hBound) hHere

/- The digits of a word of forty bits, the highest ones first. -/
def digits (word : UInt64) : List UInt64 :=
  (List.range 8).map (fun i => (word >>> UInt64.ofNat (5 * (7 - i))) &&& 0x1f)

theorem digits_lt : ∀ digit ∈ digits word, digit.toNat < 2 ^ 5 := by
  intro digit hMem
  rcases List.mem_map.mp hMem with ⟨i, -, rfl⟩
  rw [toNat_digit]
  exact Nat.mod_lt _ (Nat.two_pow_pos 5)

/- Fed into an empty register, the digits of a word are that word.  By induction over how many of
   them were fed. -/
theorem feed_word {word : UInt64} (hLt : word.toNat < 2 ^ 40) {count : Nat} (hCount : count ≤ 8) :
    (register.feed 0
          ((List.range count).map (fun i => (word >>> UInt64.ofNat (5 * (7 - i))) &&& 0x1f))).toNat
        = word.toNat / 2 ^ (5 * (8 - count)) := by
  induction count with
  | zero =>
    rw [Nat.div_eq_of_lt hLt]
    rfl
  | succ count ih =>
    have hNext : 5 * (8 - count) = 5 * (7 - count) + 5 := by omega
    have hHere : 5 * (8 - (count + 1)) = 5 * (7 - count) := by omega
    have hFed := ih (by omega)
    have hDigit :
        ((word >>> UInt64.ofNat (5 * (7 - count))) &&& 0x1f).toNat =
          word.toNat / 2 ^ (5 * (7 - count)) % 2 ^ 5 := by
      rw [toNat_digit, toNat_shiftRight_ofNat _ (by omega)]
    have hSmall : word.toNat / 2 ^ (5 * (7 - count)) / 2 ^ 5 < 2 ^ 35 := by
      have hLe := Nat.div_le_self word.toNat (2 ^ (5 * (7 - count)))
      omega
    rw [hNext, Nat.pow_add, ← Nat.div_div_eq_div_mul] at hFed
    rw [List.range_succ, List.map_append, List.map_singleton, feed_append, feed_cons, feed_nil,
      shift_small, hFed, hDigit, hHere, Nat.mul_comm, Nat.div_add_mod]
    · rw [hFed]
      exact hSmall
    · rw [hDigit]
      exact Nat.mod_lt _ (Nat.two_pow_pos 5)

theorem feed_digits_word {word : UInt64} (hLt : word.toNat < 2 ^ 40) :
    register.feed 0 (digits word) = word := by
  apply UInt64.toNat_inj.mp
  have hFed := @feed_word register word hLt 8 (le_refl 8)
  rw [Nat.sub_self, Nat.mul_zero, Nat.pow_zero, Nat.div_one] at hFed
  exact hFed

--- Telling Apart

variable {content : UInt64}

/- Nothing but an empty register is shifted to nothing. -/
theorem shift_eq_zero (hLt : content.toNat < 2 ^ 40) (hZero : register.shift content = 0) :
    content = 0 := by
  have hTop : (content >>> 35).toNat = content.toNat / 2 ^ 35 :=
    toNat_shiftRight_ofNat content (by decide : 35 < 64)
  have hSame := hZero
  unfold shift at hSame
  rw [UInt64.xor_eq_zero_iff] at hSame
  have hNone : content >>> 35 = 0 := by
    apply register.low
    · omega
    · rw [← hSame, toNat_shiftLeft_five]
      omega
  have hSmall : content.toNat < 2 ^ 35 := by
    have hWord := congrArg UInt64.toNat hNone
    have hNat : (0 : UInt64).toNat = 0 := rfl
    rw [hTop, hNat] at hWord
    omega
  have hMoved := @shift_small register content 0 hSmall (by decide)
  rw [hZero, UInt64.xor_zero] at hMoved
  apply UInt64.toNat_inj.mp
  have hNat : (0 : UInt64).toNat = 0 := rfl
  rw [hNat] at hMoved ⊢
  omega

theorem shift_injOn (hA : a.toNat < 2 ^ 40) (hB : b.toNat < 2 ^ 40)
    (hEq : register.shift a = register.shift b) : a = b := by
  have hZero : register.shift (a ^^^ b) = 0 := by
    have hXor := @shift_xor register a b
    dsimp only at hXor
    rw [hXor, hEq, UInt64.xor_self]
  exact UInt64.xor_eq_zero_iff.mp (shift_eq_zero (xor_lt hA hB) hZero)

/- Fed the same symbols, two contents stay apart. -/
theorem feed_contents_inj (hA : a.toNat < 2 ^ 40) (hB : b.toNat < 2 ^ 40) {symbols : List UInt64}
    (hSymbols : ∀ symbol ∈ symbols, symbol.toNat < 2 ^ 40)
    (hFeed : register.feed a symbols = register.feed b symbols) : a = b := by
  have hCancel : ∀ x y symbol : UInt64, x ^^^ symbol = y ^^^ symbol → x = y := by
    intro x y symbol hSame
    exact (UInt64.xor_left_inj _).mp hSame
  exact @LinearRegister.feed_injOn UInt64 (· ^^^ ·) register.shift
      (fun content => content.toNat < 2 ^ 40)
      (fun content _ hSymbol => xor_lt (shift_lt content) hSymbol)
      hCancel (fun _ _ => shift_injOn) a b hA hB _
      hSymbols hFeed

/-
  At most eight digits are told by what they make of a register, whatever was in it.
-/
theorem feed_symbols_inj {first second : List UInt64}
    (hFirst : ∀ digit ∈ first, digit.toNat < 2 ^ 5)
    (hSecond : ∀ digit ∈ second, digit.toNat < 2 ^ 5) (hLength : first.length = second.length)
    (hShort : first.length ≤ 8)
    (hFeed : register.feed content first = register.feed content second) : first = second := by
  rw [feed_eq_xor content first, feed_eq_xor content second, hLength, UInt64.xor_right_inj] at hFeed
  have hValue := congrArg UInt64.toNat hFeed
  rw [feed_digits hFirst hShort, feed_digits hSecond (hLength ▸ hShort)] at hValue
  have hDigits : first.map UInt64.toNat = second.map UInt64.toNat := by
    apply DigitRegroup.value_inj (by decide) ?_ ?_ ?_ hValue
    · rw [List.length_map, List.length_map, hLength]
    · intro digit hMem
      rcases List.mem_map.mp hMem with ⟨value, hValue, rfl⟩
      exact hFirst value hValue
    · intro digit hMem
      rcases List.mem_map.mp hMem with ⟨value, hValue, rfl⟩
      exact hSecond value hValue
  exact List.map_injective_iff.mpr (fun _ _ hEq => UInt64.toNat_inj.mp hEq) hDigits

/- Two streams of symbols that are the same but for one run of at most eight. -/
def DifferInRun (first second : List UInt64) : Prop :=
  ∃ front x y back,
    first = front ++ x ++ back ∧
      second = front ++ y ++ back ∧ x ≠ y ∧ x.length = y.length ∧ x.length ≤ 8

/-
  A register tells streams of digits apart that differ in one short run.
-/
theorem feed_run_ne (hContent : content.toNat < 2 ^ 40) {first second : List UInt64}
    (hFirst : ∀ digit ∈ first, digit.toNat < 2 ^ 5)
    (hSecond : ∀ digit ∈ second, digit.toNat < 2 ^ 5) (hDiffer : DifferInRun first second) :
    register.feed content first ≠ register.feed content second := by
  intro hFeed
  rcases hDiffer with ⟨front, x, y, back, rfl, rfl, hNe, hLength, hShort⟩
  have hWide :
      ∀ symbols : List UInt64,
      (∀ digit ∈ symbols, digit.toNat < 2 ^ 5) → ∀ digit ∈ symbols, digit.toNat < 2 ^ 40 := by
    intro symbols hSymbols digit hMem
    exact lt_trans (hSymbols digit hMem) (by decide)
  rw [List.forall_mem_append, List.forall_mem_append] at hFirst hSecond
  rw [feed_append, feed_append, feed_append, feed_append] at hFeed
  have hFront := @feed_lt register content hContent front (hWide front hFirst.1.1)
  have hRuns :=
    feed_contents_inj (feed_lt hFront (hWide x hFirst.1.2)) (feed_lt hFront (hWide y hSecond.1.2))
      (hWide back hFirst.2) hFeed
  exact hNe (feed_symbols_inj hFirst.1.2 hSecond.1.2 hLength hShort hRuns)

end TappedRegister
