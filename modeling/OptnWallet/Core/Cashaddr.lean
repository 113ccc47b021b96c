import OptnWallet.Core.Text
import OptnWallet.Core.WatchOnly

/-
  Addresses as they are written: a prefix, and a version byte with a hash in digits of five bits
  and a checksum over both.

  Main declarations:
    * `Cashaddr.polymod` and `Cashaddr.convertBits`
    * `Cashaddr.encodePayload` and `Cashaddr.decodePayload`
    * `Address.encode` and `Address.decode`
-/

--- Lower Case

namespace OptnWallet

/-
  What the Unicode data of the standard library says of characters: the lower case of those beyond
  ASCII, and which ones have a case or are skipped where one is looked for.
-/
structure UnicodeTables where
  lowercase : Char → List Char
  cased : Char → Bool
  caseIgnorable : Char → Bool

namespace UnicodeTables

def capitalSigma : Char := Char.ofNat 0x3a3

/- `char::to_lowercase` -/
def charToLowercase (tables : UnicodeTables) (c : Char) : List Char :=
  if c.toNat < 128 then [c.toLower] else tables.lowercase c

def ignorableThenCased (tables : UnicodeTables) (text : List Char) : Bool :=
  match text.dropWhile tables.caseIgnorable with
  | c :: _ => tables.cased c
  | [] => false

/- `str::to_lowercase`.  A capital sigma at the end of a word has a form of its own, so what is
   before it is kept. -/
def toLowercaseAfter (tables : UnicodeTables) : List Char → List Char → List Char
  | _, [] => []
  | before, c :: rest =>
    (if c = capitalSigma then
      if tables.ignorableThenCased before && !tables.ignorableThenCased rest
      then [Char.ofNat 0x3c2]
      else [Char.ofNat 0x3c3]
    else tables.charToLowercase c) ++ toLowercaseAfter tables (c :: before) rest

def toLowercase (tables : UnicodeTables) (text : List Char) : List Char :=
  tables.toLowercaseAfter [] text

/- A character that lower case leaves as it is. -/
def IsLower (tables : UnicodeTables) (c : Char) : Prop :=
  c ≠ capitalSigma ∧ tables.charToLowercase c = [c]

end UnicodeTables

--- Checksums And Digits

namespace Cashaddr

/- `str::split_once` -/
def splitOnce (separator : Char) : List Char → Option (List Char × List Char)
  | [] => none
  | c :: rest =>
    if c = separator then some ([], rest)
    else (splitOnce separator rest).map (Prod.map (List.cons c) id)

def utf8 (text : List Char) : List UInt8 := text.flatMap String.utf8EncodeChar

def charset : List Char :=
  "qpzry9x8gf2tvdw0s3jn54khce6mua7l".toList

/- The register without the symbol that comes in. -/
def polymodShift (c : UInt64) : UInt64 :=
  let c0 := (c >>> 35).toUInt8
  ((c &&& 0x07ffffffff) <<< 5) ^^^
    (if c0 &&& 0x01 ≠ 0 then 0x98f2bc8e61 else 0) ^^^
    (if c0 &&& 0x02 ≠ 0 then 0x79b76d99e2 else 0) ^^^
    (if c0 &&& 0x04 ≠ 0 then 0xf33e5fb3c4 else 0) ^^^
    (if c0 &&& 0x08 ≠ 0 then 0xae2eabe2a8 else 0) ^^^
    (if c0 &&& 0x10 ≠ 0 then 0x1e4f43e470 else 0)

def polymod (values : List UInt8) : UInt64 :=
  values.foldl (fun c d => polymodShift c ^^^ d.toUInt64) 1 ^^^ 1

/- The groups of `toBits` that are in the lowest `bits` of the accumulator, for as long as there are
   any. -/
def drainGroups (toBits acc : Nat) : Nat → Nat → List UInt8 → Nat × List UInt8
  | 0, bits, out => (bits, out)
  | fuel + 1, bits, out =>
    if toBits ≤ bits then drainGroups toBits acc fuel (bits - toBits)
        (out ++ [UInt8.ofNat ((acc >>> (bits - toBits)) % 2 ^ toBits)])
    else (bits, out)

/- The accumulator, how many of its bits are pending, and the digits that were written. -/
structure BitBuffer where
  acc : Nat
  bits : Nat
  out : List UInt8

/- The accumulator is a word of 32 bits. -/
def BitBuffer.push (buffer : BitBuffer) (fromBits toBits : Nat) (value : UInt8) :
    Option BitBuffer :=
  if value.toNat >>> fromBits ≠ 0 then none
  else
    let acc := ((buffer.acc <<< fromBits) % 2 ^ 32) ||| value.toNat
    let bits := buffer.bits + fromBits
    let drained := drainGroups toBits acc bits bits buffer.out
    some { acc, bits := drained.1, out := drained.2 }

/- The digit that is left, with zeros behind it. -/
def BitBuffer.padding (buffer : BitBuffer) (toBits : Nat) : Nat :=
  ((buffer.acc <<< (toBits - buffer.bits)) % 2 ^ 32) % 2 ^ toBits

def convertBits (data : List UInt8) (fromBits toBits : Nat) (pad : Bool) : Option (List UInt8) := do
  let buffer ← data.foldlM
      (fun buffer value => buffer.push fromBits toBits value)
      { acc := 0, bits := 0, out := [] : BitBuffer }
  if pad then
    if 0 < buffer.bits then some (buffer.out ++ [UInt8.ofNat (buffer.padding toBits)])
    else some buffer.out
  else if fromBits ≤ buffer.bits ∨ buffer.padding toBits ≠ 0 then none
  else some buffer.out

--- Payloads

def prefixSymbols (addressPrefix : List Char) : List UInt8 :=
  (utf8 addressPrefix).map (fun b => b &&& 0x1f)

/- The digits of the checksum, the highest first. -/
def checksumDigits (poly : UInt64) : List UInt8 :=
  (List.range 8).map (fun i => ((poly >>> UInt64.ofNat (5 * (7 - i))) &&& 0x1f).toUInt8)

def charOf (digit : UInt8) : Char := (charset[digit.toNat]?).getD 'q'

/- Whole bytes always convert. -/
def encodePayload (addressPrefix : List Char) (payload8 : List UInt8) : Option (List Char) := do
  let payload5 ← convertBits payload8 8 5 true
  let poly := polymod (prefixSymbols addressPrefix ++ [0] ++ payload5 ++ List.replicate 8 0)
  some (addressPrefix ++ [':'] ++ payload5.map charOf ++ (checksumDigits poly).map charOf)

/- What a character stands for, by its lowest byte. -/
def digitOf (c : Char) : Except String UInt8 :=
  match charset.findIdx? (fun x => UInt8.ofNat x.toNat = UInt8.ofNat c.toNat)
  with
  | some i => .ok (UInt8.ofNat i)
  | none => .error ("'" ++ String.singleton c ++ "' is not a CashAddr character")

def decodePayload (address : List Char) : Except String (List UInt8) :=
  match splitOnce ':' address with
  | none => .error ("'" ++ String.ofList address ++ "' has no prefix")
  | some (_, payload) => do
      let values ← payload.mapM digitOf
      if values.length < 8 then .error "payload is too short to carry a checksum"
      else
        match convertBits (values.take (values.length - 8)) 5 8 false
        with
        | some bytes => .ok bytes
        | none => .error "payload does not convert to bytes"

end Cashaddr

--- Addresses

/- An error that is answered, or an index out of range. -/
inductive Fault (ε : Type) where
  | error (e : ε)
  | panic
deriving DecidableEq

/- The type is in the bits above the lowest three. -/
def AddressKind.versionByte : AddressKind → UInt8
  | p2pkh => 0x00
  | p2sh => 0x08
  | p2pkhToken => 0x10
  | p2shToken => 0x18

def AddressKind.ofVersion (version : UInt8) : Except (Fault String) AddressKind :=
  match (version >>> 3).toNat with
  | 0 => .ok .p2pkh
  | 1 => .ok .p2sh
  | 2 => .ok .p2pkhToken
  | 3 => .ok .p2shToken
  | other => .error (.error ("unsupported address type " ++ toString other))

namespace Address

def encode (address : Address) : Option String :=
  (Cashaddr.encodePayload address.addressPrefix.toList
      ([address.kind.versionByte] ++ address.hash.toList)).map String.ofList

def symbolOf (byte : UInt8) : Except (Fault String) UInt8 :=
  match Cashaddr.charset.findIdx? (fun x => UInt8.ofNat x.toNat = byte)
  with
  | some i => .ok (UInt8.ofNat i)
  | none => .error
      (.error ("invalid character '" ++ String.singleton (Char.ofNat byte.toNat) ++ "' in address"))

/- The version byte and the hash behind it. -/
def ofPayload (addressPrefix : List Char) (payload8 : List UInt8) : Except (Fault String) Address :=
  match payload8 with
  | [] => .error (.error "expected a 21-byte payload, got 0 bytes")
  | version :: hash =>
    if hLength : hash.length = 20 then do
      let kind ← AddressKind.ofVersion version
      .ok { kind, hash := ⟨hash.toArray, hLength⟩, addressPrefix := String.ofList addressPrefix }
    else
      .error (.error ("expected a 21-byte payload, got " ++ toString (hash.length + 1) ++ " bytes"))

/- The prefix and the payload, in lower case. -/
def splitPrefix (lower : List Char) : List Char × List Char :=
  match Cashaddr.splitOnce ':' lower with
  | some parts => parts
  | none => ("bitcoincash".toList, lower)

/- The digits between the prefix and the checksum are cut out of all symbols by their indexes. -/
def payloadDigits (addressPrefix : List Char) (values : List UInt8) :
    Except (Fault String) (List UInt8) :=
  let start := (Cashaddr.utf8 addressPrefix).length + 1
  if values.length < 8 ∨ values.length - 8 < start then .error .panic
  else .ok ((values.take (values.length - 8)).drop start)

def decode (tables : UnicodeTables) (input : String) : Except (Fault String) Address := do
  let lower := tables.toLowercase (Text.trim input).toList
  let parts := splitPrefix lower
  if parts.2 = [] then .error (.error "address payload is empty")
  else
    let symbols ← (Cashaddr.utf8 parts.2).mapM symbolOf
    let values := Cashaddr.prefixSymbols parts.1 ++ [0] ++ symbols
    if Cashaddr.polymod values ≠ 0 then
      .error
        (.error ("checksum failed for '" ++ input ++
            "' — check for a typo, or that the prefix matches the network"))
    else
      let payload5 ← payloadDigits parts.1 values
      match Cashaddr.convertBits payload5 5 8 false with
      | none => .error (.error "address payload is not a whole number of bytes")
      | some payload8 => ofPayload parts.1 payload8

end Address

end OptnWallet
