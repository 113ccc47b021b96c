import Mathlib.Order.Bounds.Basic
import Mathlib.Tactic.Ring

/-
  Natural numbers in a floating format without a sign: a mantissa below a limit times a power of
  the base. Dropping low digits rounds a number down to the greatest one the format represents.

  Scaling by a power of two with a signed exponent, rounded down, is monotone in the number and in
  the exponent.

  Main declarations:
    * `TruncatedFloat.Representable`
    * `TruncatedFloat.isGreatest_truncated`
    * `TruncatedFloat.scaled` and its monotonicity
-/

--- Representable Numbers

namespace TruncatedFloat

def Representable (base limit value : Nat) : Prop :=
  ∃ mantissa exponent, mantissa < limit ∧ value = mantissa * base ^ exponent

/- The number with its lowest digits dropped. -/
def truncated (base digits value : Nat) : Nat := value / base ^ digits * base ^ digits

theorem truncated_le (base digits value : Nat) : truncated base digits value ≤ value :=
  Nat.div_mul_le_self value (base ^ digits)

@[simp]
theorem truncated_zero (base value : Nat) : truncated base 0 value = value := by
  simp [truncated]

variable {value : Nat}

/- A multiple below the number stays below after dropping. -/
theorem le_truncated {base digits multiple : Nat} (hBase : 0 < base)
    (hDvd : base ^ digits ∣ multiple) (hLe : multiple ≤ value) :
    multiple ≤ truncated base digits value := by
  rcases hDvd with ⟨count, rfl⟩
  have hPos : 0 < base ^ digits := Nat.pow_pos hBase
  have hCount : count ≤ value / base ^ digits := by
    rw [Nat.le_div_iff_mul_le hPos, Nat.mul_comm]
    exact hLe
  calc
    base ^ digits * count = count * base ^ digits := Nat.mul_comm _ _
    _ ≤ truncated base digits value := Nat.mul_le_mul_right _ hCount

/-
  Dropping the fewest digits that make the mantissa fit gives the greatest representable number
  below. A representable number with an exponent at least `digits` is a multiple; one with a
  smaller exponent is below the least number that has a mantissa at the limit.
-/
theorem isGreatest_truncated {base limit digits : Nat} (hBase : 0 < base) (hDvd : base ∣ limit)
    (hFits : value / base ^ digits < limit)
    (hFewest : digits = 0 ∨ limit ≤ value / base ^ (digits - 1)) :
    IsGreatest {w | Representable base limit w ∧ w ≤ value} (truncated base digits value) := by
  constructor
  · exact ⟨⟨_, digits, hFits, rfl⟩, truncated_le _ _ _⟩
  · rintro w ⟨⟨mantissa, exponent, hMantissa, rfl⟩, hLe⟩
    rcases Nat.lt_or_ge exponent digits with hSmall | hLarge
    · rcases hFewest with hZero | hAtLimit
      · omega
      · rcases hDvd with ⟨part, rfl⟩
        have hPred : base * base ^ (digits - 1) = base ^ digits := mul_pow_sub_one (by omega) base
        have hEdge : base * part * base ^ (digits - 1) ≤ value := by
          apply (Nat.le_div_iff_mul_le _).mp hAtLimit
          exact Nat.pow_pos hBase
        have hMultiple : base ^ digits ∣ base * part * base ^ (digits - 1) := by
          refine ⟨part, ?_⟩
          rw [← hPred]
          ring
        calc
          mantissa * base ^ exponent ≤ base * part * base ^ (digits - 1) :=
            Nat.mul_le_mul hMantissa.le (Nat.pow_le_pow_right hBase (by omega))
          _ ≤ truncated base digits value := le_truncated hBase hMultiple hEdge
    · apply le_truncated hBase _ hLe
      exact Dvd.dvd.mul_left (Nat.pow_dvd_pow base hLarge) mantissa

--- Signed Powers Of Two

/- `value * 2 ^ shift`, rounded down. -/
def scaled (value : Nat) (shift : Int) : Nat :=
  if shift < 0 then value / 2 ^ (-shift).toNat
  else value * 2 ^ shift.toNat

theorem scaled_mono_value {value' : Nat} (hLe : value ≤ value') (shift : Int) :
    scaled value shift ≤ scaled value' shift := by
  unfold scaled
  split
  · exact Nat.div_le_div_right hLe
  · exact Nat.mul_le_mul_right _ hLe

/- Doubling the number is one more in the exponent. -/
theorem scaled_two_mul (value : Nat) (shift : Int) :
    scaled (2 * value) shift = scaled value (shift + 1) := by
  unfold scaled
  by_cases hNeg : shift < 0
  · by_cases hNext : shift + 1 < 0
    · have hExponent : (-shift).toNat = (-(shift + 1)).toNat + 1 := by omega
      rw [if_pos hNeg, if_pos hNext, hExponent, Nat.pow_succ', Nat.mul_div_mul_left _ _ (by decide)]
    · have hShift : shift = -1 := by omega
      subst hShift
      simp
  · have hNext : ¬ shift + 1 < 0 := by omega
    have hExponent : (shift + 1).toNat = shift.toNat + 1 := by omega
    rw [if_neg hNeg, if_neg hNext, hExponent, Nat.pow_succ']
    ring

theorem scaled_mono_shift (value : Nat) {shift shift' : Int} (hLe : shift ≤ shift') :
    scaled value shift ≤ scaled value shift' := by
  rcases Int.le.dest hLe with ⟨steps, rfl⟩
  induction steps with
  | zero => simp
  | succ steps ih =>
    have hStep : shift + (steps + 1 : Nat) = shift + steps + 1 := by omega
    rw [hStep, ← scaled_two_mul]
    exact (ih (by omega)).trans (scaled_mono_value (by omega) _)

/-
  A factor that grows within one exponent and at most doubles joins the next exponent, where it
  starts again.
-/
theorem scaled_mono_join {low high : Nat} {shift shift' : Int} (start : Nat)
    (hLess : shift < shift') (hLow : low ≤ 2 * start) (hHigh : start ≤ high) :
    scaled (value * low) shift ≤ scaled (value * high) shift' := by
  calc
    scaled (value * low) shift ≤ scaled (2 * (value * start)) shift := by
      apply scaled_mono_value
      rw [Nat.mul_left_comm]
      exact Nat.mul_le_mul_left value hLow
    _ = scaled (value * start) (shift + 1) := scaled_two_mul _ _
    _ ≤ scaled (value * start) shift' := scaled_mono_shift _ (by omega)
    _ ≤ scaled (value * high) shift' := scaled_mono_value (Nat.mul_le_mul_left value hHigh) _

end TruncatedFloat
