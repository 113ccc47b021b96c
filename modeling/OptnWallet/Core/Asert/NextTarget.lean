import OptnWallet.Core.Asert.Compact
import OptnWallet.Library.StagedUpdate

/-
  The target behind the expected bits, as one function of the fixed-point exponent. The expected
  bits are the compact floor of that target, kept between one and the network's maximum.

  Main declarations:
    * `nextExponent` and `nextTarget`
    * `nextTarget_mono`
    * `targetFromCompact_nextBits`
    * `nextBits_monotone` and `nextBits_wellFormed`
-/

--- The Polynomial

namespace OptnWallet

open Asert TruncatedFloat StagedUpdate AsertAnchor

variable {H : Type}

theorem saturatingMul_mono {a a' b b' : Nat} (hFirst : a ≤ a') (hSecond : b ≤ b') :
    saturatingMul a b ≤ saturatingMul a' b' := min_le_min_right _ (Nat.mul_le_mul hFirst hSecond)

theorem saturatingAdd_mono {a a' b b' : Nat} (hFirst : a ≤ a') (hSecond : b ≤ b') :
    saturatingAdd a b ≤ saturatingAdd a' b' := min_le_min_right _ (Nat.add_le_add hFirst hSecond)

variable {e : Nat}

theorem asertPolynomial_mono {e' : Nat} (hLe : e ≤ e') :
    asertPolynomial e ≤ asertPolynomial e' := by
  have hSquare := saturatingMul_mono hLe hLe
  unfold asertPolynomial
  rw [Nat.shiftRight_eq_div_pow, Nat.shiftRight_eq_div_pow]
  apply Nat.div_le_div_right
  apply saturatingAdd_mono _ le_rfl
  apply saturatingAdd_mono
  · apply saturatingAdd_mono
    · exact saturatingMul_mono le_rfl hLe
    · exact saturatingMul_mono le_rfl hSquare
  · exact saturatingMul_mono le_rfl (saturatingMul_mono hSquare hLe)

/- One plus the polynomial, in units of the radix. -/
def asertFactor (e : Nat) : Nat := radix.toNat + asertPolynomial e

theorem le_asertFactor (e : Nat) : 2 ^ 16 ≤ asertFactor e := Nat.le_add_right _ _

theorem asertFactor_mono {e' : Nat} (hLe : e ≤ e') : asertFactor e ≤ asertFactor e' :=
  Nat.add_le_add_left (asertPolynomial_mono hLe) _

/- At the largest fraction the factor is still below two. -/
theorem asertFactor_le (hLt : e < 2 ^ 16) : asertFactor e ≤ 2 * 2 ^ 16 := by
  calc
    asertFactor e ≤ asertFactor (2 ^ 16 - 1) := asertFactor_mono (by omega)
    _ ≤ 2 * 2 ^ 16 := by decide

--- The Target At An Exponent

def nextTarget (target : Nat) (exponent : Int) : Nat :=
  scaled (target * asertFactor (exponent % 2 ^ 16).toNat) (exponent / 2 ^ 16) / 2 ^ 16

/-
  Within one shift the factor grows with the fraction. The fraction starts again at the next
  shift, where a factor of one is worth two at the shift before.
-/
theorem nextTarget_mono (target : Nat) {exponent exponent' : Int} (hLe : exponent ≤ exponent') :
    nextTarget target exponent ≤ nextTarget target exponent' := by
  apply Nat.div_le_div_right
  have hShift : exponent / 2 ^ 16 ≤ exponent' / 2 ^ 16 := by omega
  rcases Int.lt_or_eq_of_le hShift with hNext | hSame
  · exact scaled_mono_join (2 ^ 16) hNext (asertFactor_le (by omega)) (le_asertFactor _)
  · rw [hSame]
    apply scaled_mono_value
    apply Nat.mul_le_mul_left
    apply asertFactor_mono
    omega

variable {target : Nat}

/- The target is out of reach once its shift passes 512. -/
theorem le_nextTarget {exponent : Int} (hPos : 0 < target) (hLarge : 512 < exponent / 2 ^ 16) :
    2 ^ 256 ≤ nextTarget target exponent := by
  have hFactor : 2 ^ 16 ≤ target * asertFactor (exponent % 2 ^ 16).toNat :=
    (le_asertFactor _).trans (Nat.le_mul_of_pos_left _ hPos)
  have hShift : 256 ≤ (exponent / 2 ^ 16).toNat := by omega
  have hPow : 2 ^ 256 ≤ 2 ^ (exponent / 2 ^ 16).toNat := Nat.pow_le_pow_right (by decide) hShift
  unfold nextTarget scaled
  rw [if_neg (by omega), Nat.le_div_iff_mul_le (by decide), Nat.mul_comm]
  exact Nat.mul_le_mul hFactor hPow

--- The Exponent At A Time

section

variable (params : AsertParams) (anchor : AsertAnchor) (previousHeight : UInt32)
  (previousTime : Int)

def scheduleError : Int :=
  previousTime - anchor.prevTime -
    params.idealBlockTime * ((previousHeight.toNat : Int) - anchor.height.toNat + 1)

def nextExponent : Int :=
  (scheduleError params anchor previousHeight previousTime * radix).tdiv params.halfLife

end

variable {params : AsertParams}

theorem nextExponent_mono (anchor : AsertAnchor) (previousHeight : UInt32) {time time' : Int}
    (hHalfLife : 0 < params.halfLife) (hLe : time ≤ time') :
    nextExponent params anchor previousHeight time ≤
      nextExponent params anchor previousHeight time' := by
  apply Int.tdiv_le_tdiv hHalfLife
  apply Int.mul_le_mul_of_nonneg_right _ (by decide)
  unfold scheduleError
  omega

--- Results Of The Calculation

def InSigned (width : Nat) (value : Int) : Prop :=
  -(2 ^ (width - 1)) ≤ value ∧ value < 2 ^ (width - 1)

variable {value : Int}

theorem checkedSigned_of_inSigned {width : Nat} (hRange : InSigned width value) :
    checkedSigned (H := H) width value = .ok value := if_pos hRange

theorem checkedI64_of_inSigned (hRange : InSigned 64 value) :
    checkedI64 (H := H) value = .ok value := checkedSigned_of_inSigned hRange

theorem checkedI128_of_inSigned (hRange : InSigned 128 value) :
    checkedI128 (H := H) value = .ok value := checkedSigned_of_inSigned hRange

theorem checkedSigned_eq_ok {width : Nat} {result : Int}
    (hOk : checkedSigned (H := H) width value = .ok result) :
    InSigned width value ∧ result = value := by
  unfold checkedSigned at hOk
  split at hOk
  · rename_i hRange
    cases hOk
    exact ⟨hRange, rfl⟩
  · cases hOk

/- Every checked operation of the calculation is in range. -/
structure NextBitsInRange (params : AsertParams) (anchor : AsertAnchor) (previousHeight : UInt32)
    (previousTime : Int) : Prop where
  timeDiff : InSigned 64 (previousTime - anchor.prevTime)
  heightDiff : InSigned 64 ((previousHeight.toNat : Int) - anchor.height.toNat + 1)
  ideal :
    InSigned 64 (params.idealBlockTime * ((previousHeight.toNat : Int) - anchor.height.toNat + 1))
  scheduleError : InSigned 64 (scheduleError params anchor previousHeight previousTime)
  scaled : InSigned 128 (OptnWallet.scheduleError params anchor previousHeight previousTime * radix)
  exponent : InSigned 64 (nextExponent params anchor previousHeight previousTime)
  shift : InSigned 64 (nextExponent params anchor previousHeight previousTime >>> rbits * radix)

variable {anchor : AsertAnchor} {previousHeight : UInt32} {previousTime : Int}

theorem inRange_of_nextBits {bits : UInt32}
    (hOk : nextBits (H := H) params anchor previousHeight previousTime = .ok bits) :
    (0 < params.halfLife ∧ 0 < params.idealBlockTime) ∧
    (∃ target, targetFromCompact (H := H) anchor.bits = .ok target) ∧
    (∃ maxTarget, targetFromCompact (H := H) params.maxBits = .ok maxTarget) ∧
    NextBitsInRange params anchor previousHeight previousTime := by
  unfold nextBits at hOk
  split at hOk
  · cases hOk
  · rename_i hParams
    rcases bind_eq_ok_iff.mp hOk with ⟨target, hTarget, hOk⟩
    rcases bind_eq_ok_iff.mp hOk with ⟨maxTarget, hMax, hOk⟩
    rcases bind_eq_ok_iff.mp hOk with ⟨time, hTime, hOk⟩
    rcases bind_eq_ok_iff.mp hOk with ⟨height, hHeight, hOk⟩
    rcases bind_eq_ok_iff.mp hOk with ⟨ideal, hIdeal, hOk⟩
    rcases bind_eq_ok_iff.mp hOk with ⟨error, hError, hOk⟩
    rcases bind_eq_ok_iff.mp hOk with ⟨scaled, hScaled, hOk⟩
    rcases bind_eq_ok_iff.mp hOk with ⟨exponent, hExponent, hOk⟩
    rcases bind_eq_ok_iff.mp hOk with ⟨shift, hShift, hOk⟩
    rcases checkedSigned_eq_ok hTime with ⟨hTimeIn, rfl⟩
    rcases checkedSigned_eq_ok hHeight with ⟨hHeightIn, rfl⟩
    rcases checkedSigned_eq_ok hIdeal with ⟨hIdealIn, rfl⟩
    rcases checkedSigned_eq_ok hError with ⟨hErrorIn, rfl⟩
    rcases checkedSigned_eq_ok hScaled with ⟨hScaledIn, rfl⟩
    rcases checkedSigned_eq_ok hExponent with ⟨hExponentIn, rfl⟩
    rcases checkedSigned_eq_ok hShift with ⟨hShiftIn, -⟩
    refine ⟨?_, ?_, ?_, ?_⟩
    · omega
    · exact ⟨target, mapError_eq_ok_iff.mp hTarget⟩
    · exact ⟨maxTarget, mapError_eq_ok_iff.mp hMax⟩
    · exact
        { timeDiff := hTimeIn
          heightDiff := hHeightIn
          ideal := hIdealIn
          scheduleError := hErrorIn
          scaled := hScaledIn
          exponent := hExponentIn
          shift := hShiftIn }

theorem shiftRight_rbits (exponent : Int) : exponent >>> rbits = exponent / 2 ^ 16 := by
  rw [Int.shiftRight_eq_div_pow]
  rfl

variable {maxTarget : Nat}

/- In range, only the shift and the target decide. -/
theorem nextBits_of_inRange (hHalfLife : 0 < params.halfLife)
    (hIdealTime : 0 < params.idealBlockTime)
    (hTarget : targetFromCompact (H := H) anchor.bits = .ok target)
    (hMax : targetFromCompact (H := H) params.maxBits = .ok maxTarget)
    (hRange : NextBitsInRange params anchor previousHeight previousTime) :
    nextBits (H := H) params anchor previousHeight previousTime =
      (let exponent := nextExponent params anchor previousHeight previousTime
      if 512 < exponent / 2 ^ 16 then .ok params.maxBits
      else nextBits.boundedBits params
          (scaled (target * asertFactor (exponent % 2 ^ 16).toNat) (exponent / 2 ^ 16))
          maxTarget) := by
  have hError :
      checkedI64 (H := H)
          (previousTime - anchor.prevTime -
            params.idealBlockTime * ((previousHeight.toNat : Int) - anchor.height.toNat + 1)) =
        .ok (scheduleError params anchor previousHeight previousTime) :=
    checkedI64_of_inSigned hRange.scheduleError
  have hExponent :
      checkedI64 (H := H)
          ((scheduleError params anchor previousHeight previousTime * radix).tdiv params.halfLife) =
        .ok (nextExponent params anchor previousHeight previousTime) :=
    checkedI64_of_inSigned hRange.exponent
  have hShift := hRange.shift
  generalize nextExponent params anchor previousHeight previousTime = exponent at hExponent hShift
  have hFraction : exponent - exponent >>> rbits * radix = exponent % 2 ^ 16 := by
    rw [shiftRight_rbits]
    unfold radix rbits
    omega
  have hFractionIn :
      checkedI64 (H := H) (exponent - exponent >>> rbits * radix) = .ok (exponent % 2 ^ 16) := by
    rw [hFraction]
    apply checkedI64_of_inSigned
    unfold InSigned
    omega
  have hFractionRadix : 0 ≤ exponent % 2 ^ 16 ∧ exponent % 2 ^ 16 < radix := by
    unfold radix rbits
    omega
  have hFactor :
      checkedUnsigned (H := H) 64 (radix.toNat + asertPolynomial (exponent % 2 ^ 16).toNat) =
        .ok (asertFactor (exponent % 2 ^ 16).toNat) := by
    have hLe : asertFactor (exponent % 2 ^ 16).toNat ≤ 2 * 2 ^ 16 := asertFactor_le (by omega)
    rw [← asertFactor]
    unfold checkedUnsigned
    rw [if_pos (by omega)]
  unfold nextBits
  rw [if_neg (by omega), bind_of_ok (mapError_eq_ok_iff.mpr hTarget),
    bind_of_ok (mapError_eq_ok_iff.mpr hMax)]
  dsimp only
  rw [bind_of_ok (checkedI64_of_inSigned hRange.timeDiff),
    bind_of_ok (checkedI64_of_inSigned hRange.heightDiff),
    bind_of_ok (checkedI64_of_inSigned hRange.ideal), bind_of_ok hError,
    bind_of_ok (checkedI128_of_inSigned hRange.scaled), bind_of_ok hExponent,
    bind_of_ok (checkedI64_of_inSigned hShift), bind_of_ok hFractionIn,
    if_neg (not_not.mpr hFractionRadix), bind_of_ok hFactor]
  rw [shiftRight_rbits]
  unfold scaled
  by_cases hRight : exponent / 2 ^ 16 < 0
  · rw [if_pos hRight, if_neg (by omega), if_pos hRight, Nat.shiftRight_eq_div_pow]
  · rw [if_neg hRight, if_neg hRight, Nat.shiftLeft_eq]
    by_cases hLeft : 512 < exponent / 2 ^ 16
    · rw [if_pos (by omega), if_pos hLeft]
      rfl
    · rw [if_neg (by omega), if_neg hLeft]

theorem targetToCompact_decodes (hPos : 0 < target) (hMaxPos : 0 < maxTarget)
    (hMaxLt : maxTarget < 2 ^ 256) :
    ∃ bits,
    targetToCompact (H := H) target maxTarget = .ok bits ∧
      targetFromCompact (H := H) bits = .ok (compactFloor (min target maxTarget)) := by
  have hMinPos : 0 < min target maxTarget := by omega
  have hMinLt : min target maxTarget < 2 ^ 256 := by omega
  exact ⟨_, targetToCompact_eq_ok hMinPos hMinLt, targetFromCompact_encoded hMinPos hMinLt⟩

/- Above the maximum the network's own bits are taken. -/
theorem boundedBits_decodes (hMax : targetFromCompact (H := H) params.maxBits = .ok maxTarget)
    (value : Nat) :
    ∃ bits,
    nextBits.boundedBits (H := H) params value maxTarget = .ok bits ∧
      targetFromCompact (H := H) bits =
        .ok (compactFloor (min (max 1 (value / 2 ^ 16)) maxTarget)) := by
  have hMaxPos := targetFromCompact_pos hMax
  have hMaxLt := targetFromCompact_lt hMax
  have hShift : value >>> rbits = value / 2 ^ 16 := Nat.shiftRight_eq_div_pow value 16
  unfold nextBits.boundedBits
  dsimp only
  rw [hShift]
  split
  · rename_i hZero
    rw [hZero]
    exact targetToCompact_decodes (by decide) hMaxPos hMaxLt
  · split
    · rename_i hAbove
      have hMin : min (max 1 (value / 2 ^ 16)) maxTarget = maxTarget := by omega
      rw [hMin, compactFloor_of_decodable hMax]
      exact ⟨_, rfl, hMax⟩
    · have hOne : max 1 (value / 2 ^ 16) = value / 2 ^ 16 := by omega
      rw [hOne]
      exact targetToCompact_decodes (by omega) hMaxPos hMaxLt

theorem nextBits_decodes (hHalfLife : 0 < params.halfLife) (hIdealTime : 0 < params.idealBlockTime)
    (hTarget : targetFromCompact (H := H) anchor.bits = .ok target)
    (hMax : targetFromCompact (H := H) params.maxBits = .ok maxTarget)
    (hRange : NextBitsInRange params anchor previousHeight previousTime) :
    ∃ bits,
    nextBits (H := H) params anchor previousHeight previousTime = .ok bits ∧
      targetFromCompact (H := H) bits = .ok (compactFloor
            (min
              (max 1 (nextTarget target (nextExponent params anchor previousHeight previousTime)))
              maxTarget)) := by
  rw [nextBits_of_inRange hHalfLife hIdealTime hTarget hMax hRange]
  dsimp only
  split
  · rename_i hLarge
    have hAbove := le_nextTarget (targetFromCompact_pos hTarget) hLarge
    have hMaxLt := targetFromCompact_lt hMax
    have hMin : ∀ value, 2 ^ 256 ≤ value → min (max 1 value) maxTarget = maxTarget := by
      intro value hValue
      omega
    rw [hMin _ hAbove, compactFloor_of_decodable hMax]
    exact ⟨_, rfl, hMax⟩
  · exact boundedBits_decodes hMax _

theorem targetFromCompact_nextBits {bits : UInt32}
    (hOk : nextBits (H := H) params anchor previousHeight previousTime = .ok bits) :
    0 < params.halfLife ∧
    ∃ target maxTarget,
      targetFromCompact (H := H) anchor.bits = .ok target ∧
        targetFromCompact (H := H) params.maxBits = .ok maxTarget ∧
        targetFromCompact (H := H) bits = .ok (compactFloor
              (min
                (max 1 (nextTarget target (nextExponent params anchor previousHeight previousTime)))
                maxTarget)) := by
  rcases inRange_of_nextBits hOk with
    ⟨⟨hHalfLife, hIdealTime⟩, ⟨target, hTarget⟩, ⟨maxTarget, hMax⟩, hRange⟩
  rcases nextBits_decodes hHalfLife hIdealTime hTarget hMax hRange with ⟨own, hOwn, hDecoded⟩
  rw [hOk] at hOwn
  cases hOwn
  exact ⟨hHalfLife, target, maxTarget, hTarget, hMax, hDecoded⟩

--- Monotone In Time

theorem nextBits_monotone {params : AsertParams} {anchor : AsertAnchor} {previousHeight : UInt32}
    {time time' : Int} {bits bits' : UInt32} (hLe : time ≤ time')
    (hOk : nextBits (H := H) params anchor previousHeight time = .ok bits)
    (hOk' : nextBits (H := H) params anchor previousHeight time' = .ok bits') :
    ∃ target target',
    targetFromCompact (H := H) bits = .ok target ∧ targetFromCompact (H := H) bits' = .ok target' ∧
      target ≤ target' := by
  rcases targetFromCompact_nextBits hOk with ⟨hHalfLife, target, maxTarget, hTarget, hMax, hDecoded⟩
  rcases targetFromCompact_nextBits hOk' with ⟨-, again, maxAgain, hAgain, hMaxAgain, hDecoded'⟩
  rw [hTarget] at hAgain
  rw [hMax] at hMaxAgain
  cases hAgain
  cases hMaxAgain
  refine ⟨_, _, hDecoded, hDecoded', ?_⟩
  have hMaxPos := targetFromCompact_pos hMax
  have hMaxLt := targetFromCompact_lt hMax
  have hNext := nextTarget_mono target (nextExponent_mono anchor previousHeight hHalfLife hLe)
  apply compactFloor_mono
  · exact lt_min (lt_max_of_lt_left Nat.one_pos) hMaxPos
  · exact min_le_min_right _ (max_le_max_left _ hNext)
  · exact lt_of_le_of_lt (min_le_right _ _) hMaxLt

/- On time and ten minutes late, on mainnet. -/
theorem nextBits_monotone_mainnet :
    ∃ target target',
    targetFromCompact (H := Unit) 402971390 = .ok target ∧
      targetFromCompact (H := Unit) 402972157 = .ok target' ∧
      target ≤ target' :=
  @nextBits_monotone Unit AsertParams.mainnet (forNetwork .mainnet) 661647
    1605448444 1605449044 402971390 402972157
    (by decide) (by decide) (by decide)

--- Well-Formed Results

theorem tdiv_within {divisor bound : Int} (hLow : -bound ≤ value) (hHigh : value ≤ bound) :
    -bound ≤ value.tdiv divisor ∧ value.tdiv divisor ≤ bound := by
  have hAbs := Int.natAbs_tdiv_le_natAbs value divisor
  omega

/-
  With shipped parameters a schedule is at most 2 ^ 42 seconds off, for every height and every
  time of a header.
-/
theorem inRange_shipped {network : Network} {time : UInt32}
    (hAbove : (forNetwork network).height ≤ previousHeight) :
    NextBitsInRange (AsertParams.forNetwork network) (forNetwork network) previousHeight
      time.toNat := by
  have hHeight : previousHeight.toNat < 2 ^ 32 := previousHeight.toNat_lt
  have hTime : time.toNat < 2 ^ 32 := time.toNat_lt
  have hIdeal : (AsertParams.forNetwork network).idealBlockTime = 600 := by cases network <;> rfl
  have hPrevTime : 0 ≤ (forNetwork network).prevTime ∧ (forNetwork network).prevTime < 2 ^ 32 := by
    cases network <;> decide
  have hAnchor : (forNetwork network).height.toNat ≤ previousHeight.toNat :=
    UInt32.le_iff_toNat_le.mp hAbove
  have hError :
      -(2 ^ 42) ≤ scheduleError (AsertParams.forNetwork network) (forNetwork network)
          previousHeight time.toNat ∧
      scheduleError (AsertParams.forNetwork network) (forNetwork network) previousHeight
          time.toNat ≤ 2 ^ 42 := by
    unfold scheduleError
    rw [hIdeal]
    omega
  have hExponent :
      -(2 ^ 58) ≤ nextExponent (AsertParams.forNetwork network) (forNetwork network)
          previousHeight time.toNat ∧
      nextExponent (AsertParams.forNetwork network) (forNetwork network) previousHeight
          time.toNat ≤ 2 ^ 58 := by
    unfold nextExponent radix rbits
    apply tdiv_within <;> omega
  constructor
  · unfold InSigned
    omega
  · unfold InSigned
    omega
  · unfold InSigned
    rw [hIdeal]
    omega
  · unfold InSigned
    omega
  · unfold InSigned radix rbits
    omega
  · unfold InSigned
    omega
  · rw [shiftRight_rbits]
    unfold InSigned radix rbits
    omega

theorem nextBits_shipped {network : Network} {time : UInt32}
    (hAbove : (forNetwork network).height ≤ previousHeight) :
    ∃ bits,
    nextBits (H := H) (AsertParams.forNetwork network) (forNetwork network)
        previousHeight time.toNat = .ok bits := by
  have hPositive :
      0 < (AsertParams.forNetwork network).halfLife ∧
      0 < (AsertParams.forNetwork network).idealBlockTime := by
    cases network <;> decide
  have hTarget : ∃ target, targetFromCompact (H := H) (forNetwork network).bits = .ok target := by
    cases network <;> exact ⟨_, rfl⟩
  have hMax :
      ∃ maxTarget,
      targetFromCompact (H := H) (AsertParams.forNetwork network).maxBits = .ok maxTarget := by
    cases network <;> exact ⟨_, rfl⟩
  rcases hTarget with ⟨target, hTarget⟩
  rcases hMax with ⟨maxTarget, hMax⟩
  rcases nextBits_decodes hPositive.1 hPositive.2 hTarget hMax (inRange_shipped hAbove) with
    ⟨bits, hOk, -⟩
  exact ⟨bits, hOk⟩

theorem nextBits_wellFormed :
    (∀ (params : AsertParams) (anchor : AsertAnchor) (previousHeight : UInt32) (previousTime : Int)
        (bits : UInt32),
      nextBits (H := H) params anchor previousHeight previousTime = .ok bits → ∃ target maxTarget,
          targetFromCompact (H := H) bits = .ok target ∧
          targetFromCompact (H := H) params.maxBits = .ok maxTarget ∧
          1 ≤ target ∧ target ≤ maxTarget) ∧
    (∀ (network : Network) (previousHeight time : UInt32),
      (forNetwork network).height ≤ previousHeight →
        nextBits (H := H) (AsertParams.forNetwork network)
            (forNetwork network) previousHeight
            time.toNat ≠
          .error .arithmeticRange) ∧
    (∀ target maxTarget : Nat,
      0 < min target maxTarget →
      min target maxTarget < 2 ^ 256 → ∃ bits value,
          targetToCompact (H := H) target maxTarget = .ok bits ∧
          targetFromCompact (H := H) bits = .ok value ∧
          IsGreatest
            {w | (∃ own, targetFromCompact (H := H) own = .ok w) ∧ w ≤ min target maxTarget}
            value ∧
          targetToCompact (H := H) value maxTarget = .ok bits) := by
  refine ⟨?_, ?_, ?_⟩
  · intro params anchor previousHeight previousTime bits hOk
    rcases targetFromCompact_nextBits hOk with ⟨-, target, maxTarget, -, hMax, hDecoded⟩
    refine ⟨_, maxTarget, hDecoded, hMax, ?_, ?_⟩
    · exact targetFromCompact_pos hDecoded
    · exact (compactFloor_le _).trans (min_le_right _ _)
  · intro network previousHeight time hAbove hRange
    rcases nextBits_shipped (H := H) hAbove with ⟨bits, hOk⟩
    rw [hRange] at hOk
    cases hOk
  · intro target maxTarget hPos hLt
    have hFloorPos := compactFloor_pos hPos
    have hFloorLe := compactFloor_le (min target maxTarget)
    have hFloor :
        min (compactFloor (min target maxTarget)) maxTarget = compactFloor (min target maxTarget) :=
      min_eq_left (hFloorLe.trans (min_le_right _ _))
    refine ⟨_, _, targetToCompact_eq_ok hPos hLt, targetFromCompact_encoded hPos hLt,
      isGreatest_compactFloor hPos hLt, ?_⟩
    have hAgain := @targetToCompact_eq_ok H (compactFloor (min target maxTarget)) maxTarget
    rw [hFloor] at hAgain
    rw [hAgain hFloorPos (hFloorLe.trans_lt hLt), encoded_compactFloor hPos]

/- A mainnet result and a target between two encodings. -/
theorem nextBits_wellFormed_mainnet :
    (∃ target maxTarget,
      targetFromCompact (H := Unit) 402971390 = .ok target ∧
        targetFromCompact (H := Unit) AsertParams.mainnet.maxBits = .ok maxTarget ∧
        1 ≤ target ∧ target ≤ maxTarget) ∧
      nextBits (H := Unit) AsertParams.mainnet (forNetwork .mainnet) 4294967295 0 ≠
        .error .arithmeticRange ∧
      ∃ bits value,
        targetToCompact (H := Unit) (2 ^ 100 - 1) (2 ^ 200) = .ok bits ∧
          targetFromCompact (H := Unit) bits = .ok value ∧
          IsGreatest
            {w |
              (∃ own, targetFromCompact (H := Unit) own = .ok w) ∧ w ≤ min (2 ^ 100 - 1) (2 ^ 200)}
            value ∧
          targetToCompact (H := Unit) value (2 ^ 200) = .ok bits :=
  ⟨(@nextBits_wellFormed Unit).1 AsertParams.mainnet
      (forNetwork .mainnet) 661647 1605448444
      402971390 (by decide), (@nextBits_wellFormed Unit).2.1 .mainnet 4294967295 0 (by decide),
    (@nextBits_wellFormed Unit).2.2 (2 ^ 100 - 1) (2 ^ 200) (by decide) (by decide)⟩

end OptnWallet
