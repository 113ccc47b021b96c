import OptnWallet.Core.Cashaddr
import OptnWallet.Library.DigitRegroup

/-
  The digits of a payload: bytes that are cut into digits of another width can be put together
  again.

  Main declarations:
    * `BitBuffer.Holds` and `holds_push`
    * `convertBits_padded`
    * `convertBits_inverse` and `convertBits_reversed`
-/

--- Groups

namespace OptnWallet.Cashaddr

open DigitRegroup

variable {acc toBits bits : Nat}

theorem group_eq (hBits : toBits ≤ bits) :
    acc % 2 ^ bits / 2 ^ (bits - toBits) = (acc >>> (bits - toBits)) % 2 ^ toBits := by
  have hPow : 2 ^ bits = 2 ^ (bits - toBits) * 2 ^ toBits := by
    rw [← Nat.pow_add, Nat.sub_add_cancel hBits]
  rw [hPow, Nat.mod_mul_right_div_self, Nat.shiftRight_eq_div_pow]

theorem toNat_ofNat_small {n width : Nat} (hWidth : width ≤ 8) (hLt : n < 2 ^ width) :
    (UInt8.ofNat n).toNat = n := by
  have hPow : 2 ^ width ≤ 2 ^ 8 := Nat.pow_le_pow_right (by decide) hWidth
  exact UInt8.toNat_ofNat_of_lt' (lt_of_lt_of_le hLt hPow)

variable {fromBits : Nat} {out : List UInt8}

/- Every group that is pending is written.  By induction over the fuel, of which each group takes
   one. -/
theorem drainGroups_regrouped {fuel : Nat} {input : List Nat} (hTo : 0 < toBits)
    (hByte : toBits ≤ 8)
    (hGroup : Regrouped fromBits toBits input (out.map UInt8.toNat) bits (acc % 2 ^ bits))
    (hFuel : bits ≤ fuel) :
    Regrouped fromBits toBits input ((drainGroups toBits acc fuel bits out).2.map UInt8.toNat)
      (drainGroups toBits acc fuel bits out).1 (acc % 2 ^ (drainGroups toBits acc fuel bits out).1)
      ∧
    (drainGroups toBits acc fuel bits out).1 < toBits := by
  induction fuel generalizing bits out with
  | zero =>
    unfold drainGroups
    exact ⟨hGroup, by dsimp only; omega⟩
  | succ fuel ih =>
    unfold drainGroups
    split
    · rename_i hBits
      apply ih
      · have hWrite := hGroup.write hBits
        rw [group_eq hBits, Nat.mod_mod_of_dvd _ (pow_dvd_pow 2 (Nat.sub_le bits toBits))] at hWrite
        rw [List.map_append, List.map_singleton,
          toNat_ofNat_small hByte (Nat.mod_lt _ (Nat.two_pow_pos _))]
        exact hWrite
      · omega
    · rename_i hBits
      exact ⟨hGroup, by dsimp only; omega⟩

--- The Buffer

/- The digits that were read are written, but for fewer bits than another digit has. -/
structure BitBuffer.Holds (buffer : BitBuffer) (fromBits toBits : Nat) (input : List UInt8) :
    Prop where
  regrouped :
    Regrouped fromBits toBits (input.map UInt8.toNat) (buffer.out.map UInt8.toNat) buffer.bits
      (buffer.acc % 2 ^ buffer.bits)
  bits_lt : buffer.bits < toBits

/- What the accumulator holds of a value that is shifted in. -/
theorem pushed_mod {value : Nat} (hFits : bits + fromBits ≤ 32) (hValue : value < 2 ^ fromBits) :
    (((acc <<< fromBits) % 2 ^ 32) ||| value) % 2 ^ (bits + fromBits) =
      acc % 2 ^ bits * 2 ^ fromBits + value := by
  have hWord : 2 ^ 32 = 2 ^ (32 - fromBits) * 2 ^ fromBits := by
    rw [← Nat.pow_add, Nat.sub_add_cancel (by omega)]
  have hKept : (acc <<< fromBits) % 2 ^ 32 = (acc % 2 ^ (32 - fromBits)) <<< fromBits := by
    rw [hWord, Nat.shiftLeft_eq, Nat.mul_mod_mul_right, Nat.shiftLeft_eq]
  have hHigh : acc % 2 ^ (32 - fromBits) % 2 ^ bits = acc % 2 ^ bits :=
    Nat.mod_mod_of_dvd _ (pow_dvd_pow 2 (by omega))
  have hAbove :
      (acc % 2 ^ (32 - fromBits) * 2 ^ fromBits + value) / 2 ^ fromBits =
        acc % 2 ^ (32 - fromBits) := by
    rw [Nat.mul_comm, Nat.mul_add_div (Nat.two_pow_pos _), Nat.div_eq_of_lt hValue, Nat.add_zero]
  rw [hKept, ← Nat.shiftLeft_add_eq_or_of_lt hValue, Nat.shiftLeft_eq, Nat.pow_add,
    Nat.mul_comm (2 ^ bits), Nat.mod_mul, hAbove, hHigh, Nat.mul_add_mod_self_right,
    Nat.mod_eq_of_lt hValue, Nat.add_comm, Nat.mul_comm]

variable {buffer : BitBuffer}

theorem holds_push {input : List UInt8} (hTo : 0 < toBits) (hByte : toBits ≤ 8)
    (hFits : toBits + fromBits ≤ 32) (hHolds : buffer.Holds fromBits toBits input) {value : UInt8}
    (hValue : value.toNat < 2 ^ fromBits) :
    ∃ buffer',
    buffer.push fromBits toBits value = some buffer' ∧
      buffer'.Holds fromBits toBits (input ++ [value]) := by
  have hShift : ¬ value.toNat >>> fromBits ≠ 0 := by
    rw [Nat.shiftRight_eq_div_pow, Nat.div_eq_of_lt hValue]
    exact fun hNe => hNe rfl
  unfold BitBuffer.push
  rw [if_neg hShift]
  refine ⟨_, rfl, ?_⟩
  have hRead := hHolds.regrouped.read hValue
  have hBits := hHolds.bits_lt
  rw [← pushed_mod (by omega) hValue, ← List.map_singleton, ← List.map_append] at hRead
  have hDrain := drainGroups_regrouped hTo hByte hRead (le_refl _)
  exact ⟨hDrain.1, hDrain.2⟩

variable {data : List UInt8}

/- By induction over the data. -/
theorem holds_foldlM {input : List UInt8} (hTo : 0 < toBits) (hByte : toBits ≤ 8)
    (hFits : toBits + fromBits ≤ 32) (hHolds : buffer.Holds fromBits toBits input)
    (hData : ∀ value ∈ data, value.toNat < 2 ^ fromBits) :
    ∃ buffer',
    data.foldlM (fun buffer value => buffer.push fromBits toBits value) buffer = some buffer' ∧
      buffer'.Holds fromBits toBits (input ++ data) := by
  induction data generalizing buffer input with
  | nil =>
    refine ⟨buffer, rfl, ?_⟩
    rw [List.append_nil]
    exact hHolds
  | cons value data ih =>
    rcases holds_push hTo hByte hFits hHolds (hData value List.mem_cons_self) with
      ⟨next, hPush, hNext⟩
    have hRest : ∀ value ∈ data, value.toNat < 2 ^ fromBits := by
      intro value hMem
      exact hData value (List.mem_cons_of_mem _ hMem)
    rcases ih hNext hRest with ⟨buffer', hFold, hHolds'⟩
    refine ⟨buffer', ?_, ?_⟩
    · rw [List.foldlM_cons, hPush]
      exact hFold
    · rw [← List.append_cons] at hHolds'
      exact hHolds'

theorem holds_empty {fromBits toBits : Nat} (hTo : 0 < toBits) :
    BitBuffer.Holds
      { acc := 0, bits := 0, out := [] }
      fromBits toBits [] where
  regrouped := Regrouped.nil
  bits_lt := hTo

theorem padding_eq (hBits : buffer.bits ≤ toBits) (hWord : toBits ≤ 32) :
    buffer.padding toBits = buffer.acc % 2 ^ buffer.bits * 2 ^ (toBits - buffer.bits) := by
  have hPow : 2 ^ toBits = 2 ^ buffer.bits * 2 ^ (toBits - buffer.bits) := by
    rw [← Nat.pow_add, Nat.add_sub_cancel' hBits]
  unfold BitBuffer.padding
  rw [Nat.mod_mod_of_dvd _ (pow_dvd_pow 2 hWord), Nat.shiftLeft_eq, hPow, Nat.mul_mod_mul_right]

--- Conversions

/- Digits in range always convert, with zeros behind them. -/
theorem convertBits_padded {data : List UInt8} {fromBits toBits : Nat} (hTo : 0 < toBits)
    (hByte : toBits ≤ 8) (hFits : toBits + fromBits ≤ 32)
    (hData : ∀ value ∈ data, value.toNat < 2 ^ fromBits) :
    ∃ out zeros,
    convertBits data fromBits toBits true = some out ∧
      Padded fromBits toBits (data.map UInt8.toNat) (out.map UInt8.toNat) zeros ∧
      zeros < toBits := by
  rcases holds_foldlM hTo hByte hFits (holds_empty hTo) hData with ⟨buffer, hFold, hHolds⟩
  rw [List.nil_append] at hHolds
  have hGroup := hHolds.regrouped
  have hBits := hHolds.bits_lt
  unfold convertBits
  rw [hFold]
  by_cases hLeft : 0 < buffer.bits
  · refine
      ⟨buffer.out ++ [UInt8.ofNat (buffer.padding toBits)], toBits - buffer.bits, ?_, ?_, by omega⟩
    · simp [hLeft]
    · have hPadded := hGroup.padded hBits.le
      rw [← padding_eq hBits.le (by omega)] at hPadded
      have hSmall : buffer.padding toBits < 2 ^ toBits := by
        apply hPadded.small
        exact List.mem_append_right _ (List.mem_singleton_self _)
      rw [List.map_append, List.map_singleton, toNat_ofNat_small hByte hSmall]
      exact hPadded
  · have hNone : buffer.bits = 0 := by omega
    refine ⟨buffer.out, 0, ?_, ?_, hTo⟩
    · simp [hLeft]
    · rw [hNone] at hGroup
      exact hGroup.padded_zero

/-
  Digits that were cut narrower convert back to what they were.
-/
theorem convertBits_inverse (hTo : 0 < toBits) (hNarrow : toBits ≤ fromBits) (hByte : fromBits ≤ 8)
    (hData : ∀ value ∈ data, value.toNat < 2 ^ fromBits)
    (hConvert : convertBits data fromBits toBits true = some out) :
    convertBits out toBits fromBits false = some data := by
  rcases convertBits_padded hTo (by omega) (by omega) hData with
    ⟨out', zeros, hOut, hPadded, hZeros⟩
  rw [hConvert] at hOut
  cases hOut
  have hSmall : ∀ value ∈ out, value.toNat < 2 ^ toBits := by
    intro value hMem
    exact hPadded.small _ (List.mem_map_of_mem hMem)
  have hFrom : 0 < fromBits := by omega
  rcases holds_foldlM hFrom hByte (by omega) (holds_empty hFrom)
      hSmall with
    ⟨buffer, hFold, hHolds⟩
  rw [List.nil_append] at hHolds
  have hInput : ∀ digit ∈ data.map UInt8.toNat, digit < 2 ^ fromBits := by
    intro digit hMem
    rcases List.mem_map.mp hMem with ⟨value, hValue, rfl⟩
    exact hData value hValue
  rcases hPadded.inverse hFrom hInput (by omega)
      hHolds.regrouped hHolds.bits_lt with
    ⟨hBack, hBits, hRest⟩
  have hOut : buffer.out = data :=
    List.map_injective_iff.mpr (fun _ _ hEq => UInt8.toNat_inj.mp hEq) hBack
  have hPadding : buffer.padding fromBits = 0 := by
    rw [padding_eq hHolds.bits_lt.le (by omega), hRest, Nat.zero_mul]
  have hAccept : ¬ (toBits ≤ buffer.bits ∨ buffer.padding fromBits ≠ 0) := by
    rw [hPadding]
    omega
  unfold convertBits
  rw [hFold]
  simp only
    [Option.bind_eq_bind, Option.bind_some, Bool.false_eq_true, if_false, if_neg hAccept, hOut]

theorem small_of_push {buffer' : BitBuffer} {value : UInt8}
    (hPush : buffer.push fromBits toBits value = some buffer') : value.toNat < 2 ^ fromBits := by
  unfold BitBuffer.push at hPush
  split at hPush
  · cases hPush
  · rename_i hShift
    rw [not_not, Nat.shiftRight_eq_div_pow] at hShift
    exact Nat.lt_of_div_eq_zero (Nat.two_pow_pos _) hShift

/- Digits that were read are in range. -/
theorem small_of_foldlM {buffer' : BitBuffer}
    (hFold :
        data.foldlM (fun buffer value => buffer.push fromBits toBits value) buffer = some buffer') :
    ∀ value ∈ data, value.toNat < 2 ^ fromBits := by
  induction data generalizing buffer with
  | nil => simp
  | cons value data ih =>
    rw [List.foldlM_cons] at hFold
    rcases Option.bind_eq_some_iff.mp hFold with ⟨next, hPush, hRest⟩
    rw [List.forall_mem_cons]
    exact ⟨small_of_push hPush, ih hRest⟩

/- Where only zeros are left over, the digits that were read are the converted ones, padded. -/
theorem padded_of_convertBits (hFromByte : fromBits ≤ 8) (hTo : 0 < toBits) (hToByte : toBits ≤ 8)
    (hConvert : convertBits data fromBits toBits false = some out) :
    ∃ zeros,
    Padded toBits fromBits (out.map UInt8.toNat) (data.map UInt8.toNat) zeros ∧
      zeros < fromBits := by
  unfold convertBits at hConvert
  rcases Option.bind_eq_some_iff.mp hConvert with ⟨buffer, hFold, hFinal⟩
  rw [if_neg (by decide)] at hFinal
  split at hFinal
  · cases hFinal
  · rename_i hAccept
    cases hFinal
    rw [not_or, not_not, not_le] at hAccept
    have hSmall := small_of_foldlM hFold
    rcases holds_foldlM hTo hToByte (by omega) (holds_empty hTo)
        hSmall with
      ⟨buffer', hFold', hHolds⟩
    rw [hFold] at hFold'
    cases hFold'
    rw [List.nil_append] at hHolds
    have hGroup := hHolds.regrouped
    -- the padding is what is left, moved up
    have hRest : buffer.acc % 2 ^ buffer.bits = 0 := by
      have hPadding := hAccept.2
      rw [padding_eq hHolds.bits_lt.le (by omega)] at hPadding
      rcases Nat.mul_eq_zero.mp hPadding with hZero | hPow
      · exact hZero
      · exact absurd hPow (Nat.two_pow_pos _).ne'
    rw [hRest] at hGroup
    have hInput : ∀ digit ∈ data.map UInt8.toNat, digit < 2 ^ fromBits := by
      intro digit hMem
      rcases List.mem_map.mp hMem with ⟨value, hValue, rfl⟩
      exact hSmall value hValue
    exact ⟨buffer.bits, hGroup.reversed hInput, hAccept.1⟩

/-
  What was converted converts back: no bit of the digits is lost.
-/
theorem convertBits_reversed (hFrom : 0 < fromBits) (hFromByte : fromBits ≤ 8) (hTo : 0 < toBits)
    (hToByte : toBits ≤ 8) (hOut : ∀ value ∈ out, value.toNat < 2 ^ toBits)
    (hConvert : convertBits data fromBits toBits false = some out) :
    convertBits out toBits fromBits true = some data := by
  rcases padded_of_convertBits hFromByte hTo hToByte hConvert with ⟨zeros, hPadded, hZeros⟩
  rcases convertBits_padded hFrom hFromByte (by omega) hOut
    with ⟨back, zeros', hBack, hPadded', hZeros'⟩
  have hSame := hPadded.unique hFrom hPadded' hZeros hZeros'
  have hData : data = back :=
    List.map_injective_iff.mpr (fun _ _ hEq => UInt8.toNat_inj.mp hEq) hSame
  rw [hData]
  exact hBack

end OptnWallet.Cashaddr
