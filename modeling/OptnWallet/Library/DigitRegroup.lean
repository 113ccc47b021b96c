import Mathlib.Data.Nat.Digits.Defs

/-
  Regrouping of a string of bits: digits of one width are read and digits of another width are
  written, the most significant ones first.

  Main declarations:
    * `DigitRegroup.value` and `value_inj`
    * `DigitRegroup.Regrouped`, with `read` and `write`
    * `DigitRegroup.Padded`, `Padded.inverse`, `Padded.unique`
-/

namespace DigitRegroup

--- Values

/- What digits are worth, the first of them the most. -/
def value (base : Nat) (digits : List Nat) : Nat := Nat.ofDigits base digits.reverse

@[simp]
theorem value_concat (base : Nat) (digits : List Nat) (digit : Nat) :
    value base (digits ++ [digit]) = value base digits * base + digit := by
  unfold value
  rw [List.reverse_append, List.reverse_singleton, List.singleton_append, Nat.ofDigits_cons,
    Nat.add_comm, Nat.mul_comm]

theorem value_cons (base digit : Nat) (digits : List Nat) :
    value base (digit :: digits) = digit * base ^ digits.length + value base digits := by
  unfold value
  rw [List.reverse_cons, Nat.ofDigits_append, Nat.ofDigits_singleton, List.length_reverse,
    Nat.add_comm, Nat.mul_comm]

theorem value_lt_pow {base : Nat} (hBase : 1 < base) {digits : List Nat}
    (hSmall : ∀ digit ∈ digits, digit < base) : value base digits < base ^ digits.length := by
  rw [← List.length_reverse]
  exact Nat.ofDigits_lt_base_pow_length hBase
    (fun digit hMem => hSmall digit (List.mem_reverse.mp hMem))

/- Digits without a leading zero are those of their value. -/
theorem digits_value {base : Nat} (hBase : 1 < base) {digits : List Nat}
    (hSmall : ∀ digit ∈ digits, digit < base) (hHead : digits.head? ≠ some 0) :
    Nat.digits base (value base digits) = digits.reverse := by
  apply Nat.digits_ofDigits base hBase
  · intro digit hMem
    exact hSmall digit (List.mem_reverse.mp hMem)
  · intro hNil hZero
    rw [List.getLast_reverse] at hZero
    exact hHead (hZero ▸ List.head?_eq_some_head _)

/- The leading zeros of a text are worth nothing. -/
theorem value_zeros {α : Type} (base : Nat) (zeros : List α) (digits : List Nat) :
    value base (zeros.map (fun _ => 0) ++ digits) = value base digits := by
  induction zeros with
  | nil => rfl
  | cons _ zeros ih =>
    rw [List.map_cons, List.cons_append, value_cons, Nat.zero_mul, Nat.zero_add, ih]

theorem value_inj {base : Nat} (hBase : 1 < base) {digits digits' : List Nat}
    (hLength : digits.length = digits'.length) (hSmall : ∀ digit ∈ digits, digit < base)
    (hSmall' : ∀ digit ∈ digits', digit < base) (hValue : value base digits = value base digits') :
    digits = digits' := by
  apply List.reverse_inj.mp
  apply Nat.ofDigits_inj_of_len_eq hBase
  · rw [List.length_reverse, List.length_reverse, hLength]
  · intro digit hMem
    exact hSmall digit (List.mem_reverse.mp hMem)
  · intro digit hMem
    exact hSmall' digit (List.mem_reverse.mp hMem)
  · exact hValue

--- Regrouping

/- Digits of width `from` have been read and digits of width `to` written; `rest` is what `bits`
   further bits hold. -/
structure Regrouped (fromBits toBits : Nat) (input output : List Nat) (bits rest : Nat) : Prop where
  value_eq : value (2 ^ fromBits) input = value (2 ^ toBits) output * 2 ^ bits + rest
  length_eq : output.length * toBits + bits = input.length * fromBits
  rest_lt : rest < 2 ^ bits
  small : ∀ digit ∈ output, digit < 2 ^ toBits

namespace Regrouped

variable {fromBits toBits : Nat} {input output : List Nat} {bits rest : Nat}

theorem nil : Regrouped fromBits toBits [] [] 0 0 where
  value_eq := rfl
  length_eq := by simp
  rest_lt := Nat.one_pos
  small := by
    intro digit hMem
    cases hMem

variable (hGroup : Regrouped fromBits toBits input output bits rest)
include hGroup

/- A digit is read. -/
theorem read {digit : Nat} (hDigit : digit < 2 ^ fromBits) :
    Regrouped fromBits toBits (input ++ [digit]) output (bits + fromBits)
      (rest * 2 ^ fromBits + digit) where
  value_eq := by
    rw [value_concat, hGroup.value_eq, Nat.pow_add, Nat.add_mul, Nat.mul_assoc, Nat.add_assoc]
  length_eq := by
    rw [← Nat.add_assoc, hGroup.length_eq, List.length_append, List.length_singleton, Nat.add_mul,
      Nat.one_mul]
  rest_lt := by
    have hRest : (rest + 1) * 2 ^ fromBits ≤ 2 ^ bits * 2 ^ fromBits :=
      Nat.mul_le_mul_right _ hGroup.rest_lt
    rw [Nat.pow_add]
    rw [Nat.add_mul, Nat.one_mul] at hRest
    omega
  small := hGroup.small

/- A digit is written. -/
theorem write (hBits : toBits ≤ bits) :
    Regrouped fromBits toBits input (output ++ [rest / 2 ^ (bits - toBits)]) (bits - toBits)
      (rest % 2 ^ (bits - toBits)) where
  value_eq := by
    have hPow : 2 ^ bits = 2 ^ toBits * 2 ^ (bits - toBits) := by
      rw [← Nat.pow_add, Nat.add_sub_cancel' hBits]
    have hSplit := Nat.div_add_mod rest (2 ^ (bits - toBits))
    rw [hGroup.value_eq, value_concat, hPow, Nat.add_mul, Nat.mul_assoc, Nat.add_assoc,
      Nat.mul_comm (rest / 2 ^ (bits - toBits)), hSplit]
  length_eq := by
    have hLength := hGroup.length_eq
    rw [List.length_append, List.length_singleton, Nat.add_mul, Nat.one_mul]
    omega
  rest_lt := Nat.mod_lt _ (Nat.two_pow_pos _)
  small := by
    intro digit hMem
    rcases List.mem_append.mp hMem with hOld | hNew
    · exact hGroup.small digit hOld
    · rw [List.mem_singleton.mp hNew]
      apply Nat.div_lt_of_lt_mul
      rw [← Nat.pow_add, Nat.sub_add_cancel hBits]
      exact hGroup.rest_lt

end Regrouped

--- Padding

/- All bits of the input, with zeros behind them. -/
structure Padded (fromBits toBits : Nat) (input output : List Nat) (zeros : Nat) : Prop where
  value_eq : value (2 ^ toBits) output = value (2 ^ fromBits) input * 2 ^ zeros
  length_eq : output.length * toBits = input.length * fromBits + zeros
  small : ∀ digit ∈ output, digit < 2 ^ toBits

variable {fromBits toBits : Nat} {input output : List Nat} {bits rest : Nat}

/- Nothing is left to be written. -/
theorem Regrouped.padded_zero (hGroup : Regrouped fromBits toBits input output 0 rest) :
    Padded fromBits toBits input output 0 where
  value_eq := by
    have hRest : rest = 0 := by
      have hLt := hGroup.rest_lt
      omega
    rw [hGroup.value_eq, hRest, Nat.pow_zero, Nat.mul_one, Nat.add_zero, Nat.mul_one]
  length_eq := hGroup.length_eq
  small := hGroup.small

/- What is left is written in front of zeros. -/
theorem Regrouped.padded (hGroup : Regrouped fromBits toBits input output bits rest)
    (hBits : bits ≤ toBits) :
    Padded fromBits toBits input (output ++ [rest * 2 ^ (toBits - bits)]) (toBits - bits) where
  value_eq := by
    have hPow : 2 ^ toBits = 2 ^ bits * 2 ^ (toBits - bits) := by
      rw [← Nat.pow_add, Nat.add_sub_cancel' hBits]
    rw [value_concat, hGroup.value_eq, hPow, Nat.add_mul, Nat.mul_assoc]
  length_eq := by
    have hLength := hGroup.length_eq
    rw [List.length_append, List.length_singleton, Nat.add_mul, Nat.one_mul]
    omega
  small := by
    intro digit hMem
    rcases List.mem_append.mp hMem with hOld | hNew
    · exact hGroup.small digit hOld
    · have hPow : 2 ^ toBits = 2 ^ bits * 2 ^ (toBits - bits) := by
        rw [← Nat.pow_add, Nat.add_sub_cancel' hBits]
      rw [List.mem_singleton.mp hNew, hPow]
      exact Nat.mul_lt_mul_of_pos_right hGroup.rest_lt (Nat.two_pow_pos _)

/-
  Reading the padded digits back gives the input, with the zeros left over.
-/
theorem Padded.inverse {zeros : Nat} (hPadded : Padded fromBits toBits input output zeros)
    (hFrom : 0 < fromBits) (hInput : ∀ digit ∈ input, digit < 2 ^ fromBits)
    (hZeros : zeros < fromBits) {back : List Nat}
    (hBack : Regrouped toBits fromBits output back bits rest) (hBits : bits < fromBits) :
    back = input ∧ bits = zeros ∧ rest = 0 := by
  have hLengths : back.length * fromBits + bits = input.length * fromBits + zeros :=
    hBack.length_eq.trans hPadded.length_eq
  have hCount : back.length = input.length := by
    have hDiv := congrArg (fun total => total / fromBits) hLengths
    rw [Nat.mul_comm, Nat.mul_add_div hFrom, Nat.div_eq_of_lt hBits, Nat.mul_comm,
      Nat.mul_add_div hFrom, Nat.div_eq_of_lt hZeros] at hDiv
    exact hDiv
  have hSame : bits = zeros := by
    rw [hCount] at hLengths
    omega
  subst hSame
  have hValues :
      value (2 ^ fromBits) input * 2 ^ bits = value (2 ^ fromBits) back * 2 ^ bits + rest :=
    hPadded.value_eq.symm.trans hBack.value_eq
  have hRest : rest = 0 := by
    have hMod := congrArg (fun total => total % 2 ^ bits) hValues
    rw [Nat.mul_mod_left, Nat.mul_add_mod_self_right, Nat.mod_eq_of_lt hBack.rest_lt] at hMod
    exact hMod.symm
  refine ⟨?_, rfl, hRest⟩
  rw [hRest, Nat.add_zero] at hValues
  apply value_inj (Nat.one_lt_two_pow hFrom.ne') hCount hBack.small hInput
  exact (Nat.eq_of_mul_eq_mul_right (Nat.two_pow_pos bits) hValues).symm

/- Written in front of zeros, digits are cut back from what they were regrouped to. -/
theorem Regrouped.reversed (hGroup : Regrouped fromBits toBits input output bits 0)
    (hInput : ∀ digit ∈ input, digit < 2 ^ fromBits) :
    Padded toBits fromBits output input bits where
  value_eq := by
    rw [hGroup.value_eq, Nat.add_zero]
  length_eq := hGroup.length_eq.symm
  small := hInput

/- There is one way to pad with fewer zeros than a digit. -/
theorem Padded.unique {zeros zeros' : Nat} {output' : List Nat} (hTo : 0 < toBits)
    (hPadded : Padded fromBits toBits input output zeros)
    (hPadded' : Padded fromBits toBits input output' zeros') (hZeros : zeros < toBits)
    (hZeros' : zeros' < toBits) : output = output' := by
  have hLength := hPadded.length_eq
  have hLength' := hPadded'.length_eq
  have hCount : output.length = output'.length := by
    rcases Nat.lt_trichotomy output.length output'.length with hLt | hEq | hGt
    · have hMul := Nat.mul_le_mul_right toBits hLt
      rw [Nat.succ_mul] at hMul
      omega
    · exact hEq
    · have hMul := Nat.mul_le_mul_right toBits hGt
      rw [Nat.succ_mul] at hMul
      omega
  have hSame : zeros = zeros' := by
    rw [hCount] at hLength
    omega
  apply value_inj (Nat.one_lt_two_pow hTo.ne') hCount hPadded.small hPadded'.small
  rw [hPadded.value_eq, hPadded'.value_eq, hSame]

end DigitRegroup
