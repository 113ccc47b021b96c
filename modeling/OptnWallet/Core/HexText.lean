import OptnWallet.Core.Coins.Txid
import OptnWallet.Library.Utf8

/-
  Hexadecimal text of either case.  In the lower case it is the text that its bytes are displayed
  as.

  Main declarations:
    * `hexChar_facts`
    * `lower_of_hexPairs`
    * `HexText`
-/

namespace OptnWallet

/- Bytes of more than seven bits are no digits. -/
theorem hexNibble_high {value : Nat} (hHigh : 192 ≤ value) (hLt : value < 256) :
    hexNibble (UInt8.ofNat value) = none := by
  have hAll : ∀ offset < 64, hexNibble (UInt8.ofNat (192 + offset)) = none := by decide
  have hHere := hAll (value - 192) (by omega)
  rw [Nat.add_sub_cancel' hHigh] at hHere
  exact hHere

/- A character whose bytes are digits is one digit. -/
theorem hexChar_facts {c : Char}
    (hHex : ∀ byte ∈ String.utf8EncodeChar c, (hexNibble byte).isSome = true) :
    ∃ n < 16,
    String.utf8EncodeChar c = [UInt8.ofNat c.toNat] ∧
      hexNibble (UInt8.ofNat c.toNat) = some (UInt8.ofNat n) ∧
      c.toLower = Nat.digitChar n := by
  have hAscii :
      ∀ code < 128,
      (hexNibble (UInt8.ofNat code)).isSome = true →
        ∃ n < 16,
          hexNibble (UInt8.ofNat code) = some (UInt8.ofNat n) ∧
            (Char.ofNat code).toLower = Nat.digitChar n := by
    decide +kernel
  rcases Utf8.encodeChar_cases c with ⟨hLow, hEncode⟩ | ⟨-, first, rest, hFirst, hEncode⟩
  · rw [hEncode, List.forall_mem_singleton] at hHex
    rcases hAscii c.toNat hLow hHex with ⟨n, hLt, hNibble, hLower⟩
    rw [Char.ofNat_toNat] at hLower
    exact ⟨n, hLt, hEncode, hNibble, hLower⟩
  · exfalso
    have hNone := hexNibble_high hFirst first.toNat_lt
    rw [UInt8.ofNat_toNat] at hNone
    rw [hEncode, List.forall_mem_cons, hNone] at hHex
    cases hHex.1

theorem nibbles_of_join {high low : Nat} (hHigh : high < 16) (hLow : low < 16) :
    (UInt8.ofNat high <<< 4 ||| UInt8.ofNat low).toNat / 16 = high ∧
    (UInt8.ofNat high <<< 4 ||| UInt8.ofNat low).toNat % 16 = low := by
  have hAll :
      ∀ high < 16,
      ∀ low < 16,
        (UInt8.ofNat high <<< 4 ||| UInt8.ofNat low).toNat / 16 = high ∧
          (UInt8.ofNat high <<< 4 ||| UInt8.ofNat low).toNat % 16 = low := by
    decide +kernel
  exact hAll high hHigh low hLow

/- By recursion over pairs of characters. -/
theorem lower_of_hexPairs :
    ∀ (cs : List Char) (bytes : List UInt8),
    (∀ byte ∈ Cashaddr.utf8 cs, (hexNibble byte).isSome = true) →
      (Cashaddr.utf8 cs).length % 2 = 0 →
      hexPairs (Cashaddr.utf8 cs) = some bytes →
      cs.map Char.toLower = bytes.flatMap
          (fun byte => [Nat.digitChar (byte.toNat / 16), Nat.digitChar (byte.toNat % 16)])
  | [], bytes, _, _, hPairs => by
      cases hPairs
      rfl
  | [c], bytes, hHex, hEven, _ => by
      unfold Cashaddr.utf8 at hHex hEven
      rw [List.flatMap_singleton] at hHex hEven
      rcases hexChar_facts hHex with ⟨n, -, hEncode, -⟩
      rw [hEncode] at hEven
      cases hEven
  | c :: d :: cs, bytes, hHex, hEven, hPairs => by
      have hSplit :
          Cashaddr.utf8 (c :: d :: cs) =
            String.utf8EncodeChar c ++ (String.utf8EncodeChar d ++ Cashaddr.utf8 cs) := by
        unfold Cashaddr.utf8
        rw [List.flatMap_cons, List.flatMap_cons]
      rw [hSplit, List.forall_mem_append, List.forall_mem_append] at hHex
      rcases hexChar_facts hHex.1 with ⟨high, hHigh, hEncodeC, hNibbleC, hLowerC⟩
      rcases hexChar_facts hHex.2.1 with ⟨low, hLow, hEncodeD, hNibbleD, hLowerD⟩
      rw [hSplit, hEncodeC, hEncodeD, List.singleton_append, List.singleton_append] at hEven hPairs
      rw [hexPairs, hNibbleC, hNibbleD] at hPairs
      cases hRest : hexPairs (Cashaddr.utf8 cs) with
      | none =>
        rw [hRest] at hPairs
        cases hPairs
      | some rest =>
        rw [hRest] at hPairs
        have hBytes := Option.some.inj hPairs
        have hTail :=
          lower_of_hexPairs cs rest hHex.2.2
            (by
              rw [List.length_cons, List.length_cons] at hEven
              omega)
            hRest
        have hByte := nibbles_of_join hHigh hLow
        rw [← hBytes, List.map_cons, List.map_cons, hLowerC, hLowerD, hTail, List.flatMap_cons,
          hByte.1, hByte.2]
        rfl

--- Text of Bytes

/- Pairs of digits that stand for the bytes. -/
structure HexText (text : String) (bytes : List UInt8) : Prop where
  even : (Cashaddr.utf8 text.toList).length % 2 = 0
  pairs : hexPairs (Cashaddr.utf8 text.toList) = some bytes

/- By recursion over pairs of digits. -/
theorem isSome_of_hexPairs :
    ∀ (digits bytes : List UInt8),
    digits.length % 2 = 0 →
      hexPairs digits = some bytes →
      ∀ digit ∈ digits, (hexNibble digit).isSome = true
  | [], _, _, _ => by simp
  | [_], _, hEven, _ => by cases hEven
  | hi :: lo :: rest, bytes, hEven, hPairs => by
      rw [hexPairs] at hPairs
      cases hHigh : hexNibble hi with
      | none =>
        rw [hHigh] at hPairs
        cases hPairs
      | some high =>
        cases hLow : hexNibble lo with
        | none =>
          rw [hHigh, hLow] at hPairs
          cases hPairs
        | some low =>
          cases hRest : hexPairs rest with
          | none =>
            rw [hHigh, hLow, hRest] at hPairs
            cases hPairs
          | some tail =>
            have hTail :=
              isSome_of_hexPairs rest tail
                (by
                  rw [List.length_cons, List.length_cons] at hEven
                  omega)
                hRest
            intro digit hMem
            rcases List.mem_cons.mp hMem with rfl | hMem
            · rw [hHigh]
              rfl
            · rcases List.mem_cons.mp hMem with rfl | hMem
              · rw [hLow]
                rfl
              · exact hTail digit hMem

namespace HexText

variable {text : String} {bytes : List UInt8} (hText : HexText text bytes)
include hText

theorem isSome : ∀ digit ∈ Cashaddr.utf8 text.toList, (hexNibble digit).isSome = true :=
  isSome_of_hexPairs _ bytes hText.even hText.pairs

/- In the lower case it is the text that is displayed. -/
theorem lower : String.ofList (text.toList.map Char.toLower) = hexString bytes := by
  rw [lower_of_hexPairs text.toList bytes hText.isSome hText.even hText.pairs]
  rfl

theorem length : text.length = 2 * bytes.length := by
  have hLower := congrArg String.length hText.lower
  unfold hexString at hLower
  rw [String.length_ofList, List.length_map, String.length_ofList, List.length_flatMap] at hLower
  rw [← String.length_toList, hLower]
  simp
  omega

/- Every character is a digit, which is no blank. -/
theorem digit : ∀ c ∈ text.toList, c.toNat < 128 ∧ Text.isWhitespace c = false := by
  intro c hMem
  have hHex : ∀ byte ∈ String.utf8EncodeChar c, (hexNibble byte).isSome = true :=
    fun byte hByte => hText.isSome byte (List.mem_flatMap.mpr ⟨c, hMem, hByte⟩)
  rcases hexChar_facts hHex with ⟨n, -, hEncode, hNibble, -⟩
  rw [hEncode, List.forall_mem_singleton] at hHex
  have hAscii : c.toNat < 128 := by
    rcases Utf8.encodeChar_cases c with ⟨hLow, -⟩ | ⟨-, first, rest, hFirst, hMany⟩
    · exact hLow
    · have hNone := hexNibble_high hFirst first.toNat_lt
      rw [UInt8.ofNat_toNat] at hNone
      rw [hMany] at hEncode
      rw [← (List.cons.inj hEncode).1, hNone] at hHex
      cases hHex
  have hAll :
      ∀ code < 128,
      (hexNibble (UInt8.ofNat code)).isSome = true →
        Text.isWhitespace (Char.ofNat code) = false := by
    decide +kernel
  have hPlain := hAll c.toNat hAscii hHex
  rw [Char.ofNat_toNat] at hPlain
  exact ⟨hAscii, hPlain⟩

/- There is nothing to trim. -/
theorem trim : Text.trim text = text := by
  have hPlain : ∀ c ∈ text.toList, Text.isWhitespace c = false :=
    fun c hMem => (hText.digit c hMem).2
  have hSame : Text.trim (String.ofList text.toList) = String.ofList text.toList := by
    apply trim_of_ends
    · intro c hHead
      exact hPlain c (List.mem_of_mem_head? hHead)
    · intro c hLast
      exact hPlain c (List.mem_of_getLast? hLast)
  rw [String.ofList_toList] at hSame
  exact hSame

end HexText

theorem hexText_hexString (bytes : List UInt8) : HexText (hexString bytes) bytes := by
  constructor
  · rw [utf8_hexString, List.length_flatMap]
    have hTwo :
        bytes.map (fun byte => (digitBytes byte).length) = List.replicate bytes.length 2 := by
      rw [List.eq_replicate_iff]
      constructor
      · rw [List.length_map]
      · intro count hMem
        rcases List.mem_map.mp hMem with ⟨byte, -, rfl⟩
        rfl
    rw [hTwo]
    simp
  · rw [utf8_hexString]
    exact hexPairs_digitBytes bytes

end OptnWallet
