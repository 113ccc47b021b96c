import OptnWallet.Core.Scan.Boundaries

/-
  Base 58 numbers in bytes, with a zero byte for each leading `1`.

  Main declarations:
    * `Scan.base58Encode` and `Scan.Base58Of`
    * `Scan.feedByte_grown`
    * `Scan.base58Decode_exact`
-/

namespace OptnWallet.Scan

open DigitRegroup StagedUpdate

--- The Numbers

def bytesValue (bytes : List UInt8) : Nat := value 256 (bytes.map UInt8.toNat)

def digitOf (byte : UInt8) : Nat := (base58Alphabet.idxOf? byte).getD 0

/- The text of bytes: a `1` for each leading zero byte, and the number of the rest. -/
def base58Encode (bytes : List UInt8) : List UInt8 :=
  (bytes.takeWhile (· == 0)).map (fun _ => 0x31) ++
    (Nat.digits 58 (bytesValue bytes)).reverse.map (fun digit => base58Alphabet.getD digit 0x31)

/- The bytes of a number, with one leading zero byte for each leading `1` and no other. -/
structure Base58Of (text bytes : List UInt8) : Prop where
  value_eq : bytesValue bytes = value 58 (text.map digitOf)
  zeros : (bytes.takeWhile (· == 0)).length = (text.takeWhile (· == 0x31)).length

--- Carries

theorem bytesValue_cons (byte : UInt8) (bytes : List UInt8) :
    bytesValue (byte :: bytes) = byte.toNat * 256 ^ bytes.length + bytesValue bytes := by
  unfold bytesValue
  rw [List.map_cons, value_cons, List.length_map]

theorem bytesValue_lt (bytes : List UInt8) : bytesValue bytes < 256 ^ bytes.length := by
  unfold bytesValue
  rw [← List.length_map UInt8.toNat]
  apply value_lt_pow (by decide)
  intro digit hMem
  rcases List.mem_map.mp hMem with ⟨byte, -, rfl⟩
  exact byte.toNat_lt

/- One pass multiplies the digits by 58: what does not fit into them is the carry. -/
theorem foldrM_feedDigit (digits : List UInt8) {value : Nat} (hValue : value < 256) :
    ∃ carry fed,
      digits.foldrM feedDigit (value, []) = .ok (carry, fed) ∧ carry < 256 ∧
        fed.length = digits.length ∧
        carry * 256 ^ digits.length + bytesValue fed = 58 * bytesValue digits + value := by
  induction digits with
  | nil => exact ⟨value, [], rfl, hValue, rfl, by simp [bytesValue, DigitRegroup.value]⟩
  | cons digit digits ih =>
    rcases ih with ⟨carry, fed, hFed, hCarry, hLength, hSum⟩
    have hDigit := digit.toNat_lt
    have hStep :
        feedDigit digit (carry, fed) = .ok ((carry + 58 * digit.toNat) / 256,
            UInt8.ofNat ((carry + 58 * digit.toNat) % 256) :: fed) := by
      unfold feedDigit
      exact if_pos (by dsimp only; omega)
    refine ⟨(carry + 58 * digit.toNat) / 256,
      UInt8.ofNat ((carry + 58 * digit.toNat) % 256) :: fed, ?_, ?_, congrArg Nat.succ hLength, ?_⟩
    · rw [List.foldrM_cons, hFed]
      exact hStep
    · omega
    · have hByte : (UInt8.ofNat ((carry + 58 * digit.toNat) % 256)).toNat =
          (carry + 58 * digit.toNat) % 256 :=
        UInt8.toNat_ofNat_of_lt' (Nat.mod_lt _ (by decide))
      have hSplit := Nat.div_add_mod (carry + 58 * digit.toNat) 256
      rw [bytesValue_cons, bytesValue_cons, hByte, hLength, List.length_cons, pow_succ]
      generalize (carry + 58 * digit.toNat) / 256 = high at hSplit ⊢
      generalize (carry + 58 * digit.toNat) % 256 = low at hSplit ⊢
      calc
        high * (256 ^ digits.length * 256) + (low * 256 ^ digits.length + bytesValue fed) =
            (256 * high + low) * 256 ^ digits.length + bytesValue fed := by ring
        _ = 58 * (digit.toNat * 256 ^ digits.length) +
            (carry * 256 ^ digits.length + bytesValue fed) := by rw [hSplit]; ring
        _ = 58 * (digit.toNat * 256 ^ digits.length + bytesValue digits) + value := by
          rw [hSum]; ring

/- A carry of a byte is pushed in front where it is not zero. -/
theorem pushCarry_eq {carry : Nat} (hCarry : carry < 256) (digits : List UInt8) :
    pushCarry 4 carry digits = if carry = 0 then digits else UInt8.ofNat carry :: digits := by
  have hDiv : carry / 256 = 0 := Nat.div_eq_of_lt hCarry
  by_cases hZero : carry = 0
  · rw [if_pos hZero, hZero]
    rfl
  · have hPos : 0 < carry := Nat.pos_of_ne_zero hZero
    unfold pushCarry
    rw [if_neg hZero, if_pos hPos, hDiv, Nat.mod_eq_of_lt hCarry]
    rfl

/- A number has no leading zero byte exactly when it needs all of its bytes. -/
theorem head_ne_zero_of_le {byte : UInt8} {bytes : List UInt8}
    (hLe : 256 ^ bytes.length ≤ bytesValue (byte :: bytes)) : byte ≠ 0 := by
  rintro rfl
  rw [bytesValue_cons, UInt8.toNat_zero, Nat.zero_mul, Nat.zero_add] at hLe
  exact absurd (bytesValue_lt bytes) (not_lt.mpr hLe)

theorem le_of_head_ne_zero {byte : UInt8} {bytes : List UInt8} (hHead : byte ≠ 0) :
    256 ^ bytes.length ≤ bytesValue (byte :: bytes) := by
  have hPos : 0 < byte.toNat := Nat.pos_of_ne_zero (fun hZero => hHead (UInt8.toNat_inj.mp hZero))
  rw [bytesValue_cons]
  exact le_trans (Nat.le_mul_of_pos_left _ hPos) (Nat.le_add_right _ _)

--- Digits

/- The digits so far: the number without a leading zero. -/
structure Grown (values : List Nat) (digits : List UInt8) : Prop where
  value_eq : bytesValue digits = value 58 values
  head : digits.head? ≠ some 0

theorem feedByte_grown {values : List Nat} {digits : List UInt8} (hGrown : Grown values digits)
    {digit : Nat} (hDigit : digit < 58) {byte : UInt8}
    (hByte : base58Alphabet.idxOf? byte = some digit) :
    ∃ next, feedByte (some digits) byte = .ok (some next) ∧ Grown (values ++ [digit]) next := by
  rcases foldrM_feedDigit digits (lt_trans hDigit (by decide)) with
    ⟨carry, fed, hFed, hCarry, hLength, hSum⟩
  rw [hGrown.value_eq, Nat.mul_comm 58, ← value_concat] at hSum
  refine ⟨pushCarry 4 carry fed, ?_, ?_⟩
  · unfold feedByte
    rw [hByte]
    dsimp only
    rw [bind_of_ok hFed]
  · rw [pushCarry_eq hCarry]
    split
    · rename_i hZero
      rw [hZero, Nat.zero_mul, Nat.zero_add] at hSum
      refine ⟨hSum, ?_⟩
      cases digits with
      | nil =>
        rw [List.length_eq_zero_iff.mp hLength]
        exact nofun
      | cons first digits =>
        cases fed with
        | nil => cases hLength
        | cons head fed =>
          -- The number did not become smaller, so its highest byte is still needed.
          have hFirst : 256 ^ digits.length ≤ bytesValue (first :: digits) :=
            le_of_head_ne_zero (fun hEq => hGrown.head (congrArg some hEq))
          rw [List.length_cons, List.length_cons] at hLength
          rw [hGrown.value_eq, ← Nat.succ.inj hLength] at hFirst
          have hHead : head ≠ 0 := by
            apply head_ne_zero_of_le
            rw [hSum, value_concat]
            omega
          exact fun hEq => hHead (Option.some.inj hEq)
    · rename_i hPos
      have hCarryByte : (UInt8.ofNat carry).toNat = carry := UInt8.toNat_ofNat_of_lt' hCarry
      constructor
      · rw [bytesValue_cons, hCarryByte, hLength]
        exact hSum
      · intro hEq
        have hZero := congrArg UInt8.toNat (Option.some.inj hEq)
        rw [hCarryByte] at hZero
        exact hPos hZero

--- Texts

theorem isBase58_digit {byte : UInt8} (hBase58 : isBase58 byte = true) :
    digitOf byte < 58 ∧ base58Alphabet.idxOf? byte = some (digitOf byte) ∧
      base58Alphabet.getD (digitOf byte) 0x31 = byte := by
  have hMem : byte ∈ base58Alphabet := List.contains_iff_mem.mp hBase58
  rcases Option.isSome_iff_exists.mp (List.isSome_idxOf?.mpr hMem) with ⟨digit, hIndex⟩
  rcases List.idxOf?_eq_some_iff.mp hIndex with ⟨hLt, hByte, -⟩
  unfold digitOf
  rw [hIndex, Option.getD_some, ← List.getElem_eq_getD (h := hLt)]
  exact ⟨hLt, rfl, hByte⟩

/- By induction over the text: every byte of it is read. -/
theorem foldlM_grown {text : List UInt8} (hText : ∀ byte ∈ text, isBase58 byte = true)
    {values : List Nat} {digits : List UInt8} (hGrown : Grown values digits) :
    ∃ next, text.foldlM feedByte (some digits) = .ok (some next) ∧
      Grown (values ++ text.map digitOf) next := by
  induction text generalizing values digits with
  | nil => exact ⟨digits, rfl, by rwa [List.map_nil, List.append_nil]⟩
  | cons byte text ih =>
    rcases isBase58_digit (hText byte List.mem_cons_self) with ⟨hDigit, hIndex, -⟩
    rcases feedByte_grown hGrown hDigit hIndex with ⟨fed, hFed, hGrown⟩
    rcases ih (fun other hMem => hText other (List.mem_cons_of_mem _ hMem)) hGrown with
      ⟨next, hNext, hGrown⟩
    refine ⟨next, ?_, ?_⟩
    · rw [List.foldlM_cons, bind_of_ok hFed]
      exact hNext
    · rw [List.map_cons, ← List.singleton_append, ← List.append_assoc]
      exact hGrown

/- A byte that is not a digit is never recovered from. -/
theorem foldlM_accepted {text digits : List UInt8} {start : Option (List UInt8)}
    (hFold : text.foldlM feedByte start = .ok (some digits)) :
    start.isSome = true ∧ ∀ byte ∈ text, isBase58 byte = true := by
  induction text generalizing start with
  | nil =>
    rw [Except.ok.inj hFold]
    exact ⟨rfl, by simp⟩
  | cons byte text ih =>
    rw [List.foldlM_cons] at hFold
    rcases bind_eq_ok_iff.mp hFold with ⟨next, hNext, hFold⟩
    rcases ih hFold with ⟨hSome, hText⟩
    unfold feedByte at hNext
    split at hNext
    · rename_i fed value hIndex
      refine ⟨rfl, fun other hMem => ?_⟩
      rcases List.mem_cons.mp hMem with rfl | hMem
      · exact List.contains_iff_mem.mpr (List.isSome_idxOf?.mp (hIndex ▸ rfl))
      · exact hText other hMem
    · rw [← Except.ok.inj hNext] at hSome
      cases hSome

theorem takeWhile_zeros {digits : List UInt8} (hHead : digits.head? ≠ some 0) (ones : List UInt8) :
    (ones.map (fun _ => (0 : UInt8)) ++ digits).takeWhile (· == 0) = ones.map (fun _ => 0) := by
  induction ones with
  | nil =>
    cases digits with
    | nil => rfl
    | cons head digits =>
      have hFalse : (head == 0) = false :=
        beq_eq_false_iff_ne.mpr (fun hEq => hHead (congrArg some hEq))
      rw [List.map_nil, List.nil_append, List.takeWhile_cons, hFalse]
      rfl
  | cons _ ones ih => exact congrArg (0 :: ·) ih

/- The number of a text is written as the text, but for its leading digits `1`. -/
theorem encode_value {text : List UInt8} (hText : ∀ byte ∈ text, isBase58 byte = true) :
    (text.takeWhile (· == 0x31)).map (fun _ => 0x31) ++
        (Nat.digits 58 (value 58 (text.map digitOf))).reverse.map
          (fun digit => base58Alphabet.getD digit 0x31) =
      text := by
  induction text with
  | nil => simp [value]
  | cons byte text ih =>
    cases hByte : byte == 0x31 with
    | true =>
      have hDigit : digitOf byte = 0 := by
        rw [beq_iff_eq.mp hByte]
        rfl
      rw [List.takeWhile_cons, hByte, List.map_cons, hDigit, value_cons, Nat.zero_mul, Nat.zero_add]
      rw [if_pos rfl, List.map_cons, List.cons_append,
        ih (fun other hMem => hText other (List.mem_cons_of_mem _ hMem)), beq_iff_eq.mp hByte]
    | false =>
      have hDigits : ∀ digit ∈ (byte :: text).map digitOf, digit < 58 := by
        intro digit hMem
        rcases List.mem_map.mp hMem with ⟨other, hOther, rfl⟩
        exact (isBase58_digit (hText other hOther)).1
      rw [List.takeWhile_cons, hByte, digits_value (by decide) hDigits, List.reverse_reverse,
        List.map_map]
      · exact (List.map_congr_left
          (fun other hOther => (isBase58_digit (hText other hOther)).2.2)).trans (List.map_id _)
      · intro hZero
        have hFirst := (isBase58_digit (hText byte List.mem_cons_self)).2.2
        rw [Option.some.inj hZero] at hFirst
        exact beq_eq_false_iff_ne.mp hByte hFirst.symm

/- Every text over the alphabet is read as the bytes of its number, which are written as the text,
   and no two texts are read as the same bytes. -/
theorem base58Decode_exact :
    (∀ input, IsRun input → ∃ bytes,
        base58Decode input = .ok (some bytes) ∧
          Base58Of (Utf8.encode input) bytes ∧ base58Encode bytes = Utf8.encode input) ∧
    ∀ first second bytes,
      base58Decode first = .ok (some bytes) → base58Decode second = .ok (some bytes) →
        first = second := by
  have hExact :
      ∀ input, IsRun input → ∃ bytes,
          base58Decode input = .ok (some bytes) ∧
            Base58Of (Utf8.encode input) bytes ∧ base58Encode bytes = Utf8.encode input := by
    intro input hRun
    have hStart : Grown [] [] := ⟨rfl, nofun⟩
    rcases foldlM_grown hRun hStart with ⟨digits, hFold, hValue, hHead⟩
    rw [List.nil_append] at hValue
    have hZeros := takeWhile_zeros hHead ((Utf8.encode input).takeWhile (· == 0x31))
    refine ⟨((Utf8.encode input).takeWhile (· == 0x31)).map (fun _ => 0) ++ digits, ?_, ?_⟩
    · unfold base58Decode
      rw [bind_of_ok hFold]
      rfl
    · have hBytes :
          bytesValue (((Utf8.encode input).takeWhile (· == 0x31)).map (fun _ => 0) ++ digits) =
            value 58 ((Utf8.encode input).map digitOf) := by
        unfold bytesValue at hValue ⊢
        rw [List.map_append, List.map_map, ← hValue]
        exact value_zeros _ _ _
      refine ⟨⟨hBytes, by rw [hZeros, List.length_map]⟩, ?_⟩
      unfold base58Encode
      rw [hZeros, hBytes, List.map_map]
      exact encode_value hRun
  refine ⟨hExact, fun first second bytes hFirst hSecond => ?_⟩
  have hAccepted :
      ∀ input, base58Decode input = .ok (some bytes) → base58Encode bytes = Utf8.encode input := by
    intro input hDecode
    have hRun : IsRun input := by
      unfold base58Decode at hDecode
      rcases bind_eq_ok_iff.mp hDecode with ⟨digits, hFold, hDigits⟩
      cases digits with
      | none => cases hDigits
      | some digits => exact (foldlM_accepted hFold).2
    rcases hExact input hRun with ⟨bytes', hDecode', -, hEncode⟩
    rw [hDecode] at hDecode'
    rw [Option.some.inj (Except.ok.inj hDecode')]
    exact hEncode
  exact Utf8.encode_inj ((hAccepted first hFirst).symm.trans (hAccepted second hSecond))

end OptnWallet.Scan
