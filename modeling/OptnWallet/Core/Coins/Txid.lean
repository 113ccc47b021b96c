import OptnWallet.Core.Cashaddr.RoundTrip
import OptnWallet.Core.Coins
import OptnWallet.Core.Rpa

/-
  Transaction ids as text: two hexadecimal digits for each byte, of either case and with blanks
  around them.

  Main declarations:
    * `Outpoint.parse`
    * `parseTxid_hexString`
-/

--- Parsing

namespace OptnWallet

def hexNibble (byte : UInt8) : Option UInt8 :=
  if 0x30 ≤ byte ∧ byte ≤ 0x39 then some (byte - 0x30)
  else if 0x61 ≤ byte ∧ byte ≤ 0x66 then some (byte - 0x61 + 10)
  else if 0x41 ≤ byte ∧ byte ≤ 0x46 then some (byte - 0x41 + 10)
  else none

/- The bytes of pairs of digits. -/
def hexPairs : List UInt8 → Option (List UInt8)
  | hi :: lo :: rest => do
      let high ← hexNibble hi
      let low ← hexNibble lo
      let bytes ← hexPairs rest
      some ((high <<< 4 ||| low) :: bytes)
  | _ => some []

def parseTxid (text : String) : Except CoinError TxId :=
  let digits := Cashaddr.utf8 (Text.trim text).toList
  if digits.length ≠ 64 then .error .invalidTxid
  else
    match hexPairs digits with
    | none => .error .invalidTxid
    | some bytes =>
      if hLength : bytes.length = 32 then .ok ⟨bytes.toArray, hLength⟩
      else .error .invalidTxid

def Outpoint.parse (text : String) (vout : UInt32) : Except CoinError Outpoint := do
  let txid ← parseTxid text
  .ok { txid, vout }

--- Displayed Ids Are Parsed

/- What is used of the digit that stands for a number. -/
theorem hexDigit_facts {n : Nat} (hLt : n < 16) :
    Text.isWhitespace (Nat.digitChar n) = false ∧
    String.utf8EncodeChar (Nat.digitChar n) = [UInt8.ofNat (Nat.digitChar n).toNat] ∧
    hexNibble (UInt8.ofNat (Nat.digitChar n).toNat) = some (UInt8.ofNat n) := by
  have hAll :
      ∀ n < 16,
      Text.isWhitespace (Nat.digitChar n) = false ∧
        String.utf8EncodeChar (Nat.digitChar n) = [UInt8.ofNat (Nat.digitChar n).toNat] ∧
        hexNibble (UInt8.ofNat (Nat.digitChar n).toNat) = some (UInt8.ofNat n) := by
    decide
  exact hAll n hLt

/- The two digits of a byte, as bytes of text. -/
def digitBytes (byte : UInt8) : List UInt8 :=
  [UInt8.ofNat (Nat.digitChar (byte.toNat / 16)).toNat,
    UInt8.ofNat (Nat.digitChar (byte.toNat % 16)).toNat]

variable (bytes : List UInt8)

theorem utf8_hexString : Cashaddr.utf8 (hexString bytes).toList = bytes.flatMap digitBytes := by
  unfold Cashaddr.utf8 hexString
  rw [String.toList_ofList, List.flatMap_assoc]
  congr 1
  funext byte
  have hLt := byte.toNat_lt
  have hHigh := hexDigit_facts (n := byte.toNat / 16) (by omega)
  have hLow := hexDigit_facts (n := byte.toNat % 16) (by omega)
  rw [List.flatMap_cons, List.flatMap_cons, List.flatMap_nil, hHigh.2.1, hLow.2.1]
  rfl

theorem nibbles_join (byte : UInt8) :
    UInt8.ofNat (byte.toNat / 16) <<< 4 ||| UInt8.ofNat (byte.toNat % 16) = byte := by
  have hAll : ∀ n < 256, UInt8.ofNat (n / 16) <<< 4 ||| UInt8.ofNat (n % 16) = UInt8.ofNat n := by
    decide +kernel
  have hByte := hAll byte.toNat byte.toNat_lt
  rw [UInt8.ofNat_toNat] at hByte
  exact hByte

theorem hexPairs_digitBytes : hexPairs (bytes.flatMap digitBytes) = some bytes := by
  induction bytes with
  | nil => rfl
  | cons byte bytes ih =>
    have hLt := byte.toNat_lt
    have hHigh := hexDigit_facts (n := byte.toNat / 16) (by omega)
    have hLow := hexDigit_facts (n := byte.toNat % 16) (by omega)
    rw [List.flatMap_cons]
    change hexPairs
        (UInt8.ofNat (Nat.digitChar (byte.toNat / 16)).toNat ::
          UInt8.ofNat (Nat.digitChar (byte.toNat % 16)).toNat :: bytes.flatMap digitBytes) =
      some (byte :: bytes)
    rw [hexPairs, hHigh.2.2, hLow.2.2, ih]
    exact congrArg (fun b => some (b :: bytes)) (nibbles_join byte)

theorem trim_hexString : Text.trim (hexString bytes) = hexString bytes := by
  have hPlain :
      ∀ c ∈
          bytes.flatMap
            (fun byte => [Nat.digitChar (byte.toNat / 16), Nat.digitChar (byte.toNat % 16)]),
        Text.isWhitespace c = false := by
    intro c hMem
    rcases List.mem_flatMap.mp hMem with ⟨byte, -, hDigit⟩
    have hLt := byte.toNat_lt
    rcases List.mem_pair.mp hDigit with rfl | rfl
    · exact (hexDigit_facts (by omega)).1
    · exact (hexDigit_facts (by omega)).1
  unfold hexString
  apply trim_of_ends
  · intro c hHead
    exact hPlain c (List.mem_of_mem_head? hHead)
  · intro c hLast
    exact hPlain c (List.mem_of_getLast? hLast)

/- The id is displayed as the text that it is parsed from. -/
theorem parseTxid_hexString (txid : TxId) : parseTxid (hexString txid.toList) = .ok txid := by
  have hLength : txid.toList.length = 32 := txid.length_toList
  unfold parseTxid
  dsimp only
  rw [trim_hexString, utf8_hexString]
  have hDigits : (txid.toList.flatMap digitBytes).length = 64 := by
    rw [List.length_flatMap]
    have hTwo : txid.toList.map (fun byte => (digitBytes byte).length) = List.replicate 32 2 := by
      rw [List.eq_replicate_iff]
      constructor
      · rw [List.length_map, hLength]
      · intro count hMem
        rcases List.mem_map.mp hMem with ⟨byte, -, rfl⟩
        rfl
    rw [hTwo]
    decide
  rw [if_neg (not_not.mpr hDigits), hexPairs_digitBytes]
  dsimp only
  rw [dif_pos hLength]
  rfl

theorem Outpoint.parse_hexString (txid : TxId) (vout : UInt32) :
    Outpoint.parse (hexString txid.toList) vout = .ok { txid, vout } := by
  unfold Outpoint.parse
  rw [parseTxid_hexString]
  rfl

end OptnWallet
