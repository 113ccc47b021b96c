import OptnWallet.Core.Multisig.Descriptors
import OptnWallet.Library.Utf8

/-
  What a scanned or pasted payload is, from its text alone. Texts are cut at numbers of bytes,
  which panics inside a character.

  Main declarations:
    * `Scan.hasScheme` and `Scan.isMerchantProposal`
    * `Scan.wifCandidates` and `Scan.decodeWif`
    * `Scan.decodeQueryComponent` and `Scan.queryValue`
    * `Scan.classifyScannedPayload`
-/

namespace OptnWallet.Scan

open Multisig (parseUnsigned rsplitOnce trimChars)

def orPanic {ε α : Type} : Option α → Except (Fault ε) α
  | some value => .ok value
  | none => .error .panic

/- An answer, where nothing panics. -/
abbrev Scanning (α : Type) : Type := Except (Fault Empty) α

--- Payloads

def cashconnectUriScheme : String := "bch-cc-v1:"

def walletconnectUriScheme : String := "wc:"

def wizardconnectUriScheme : String := "wiz://"

def merchantProposalPrefix : String := "qrstream/1/"

def base58Alphabet : List UInt8 :=
  Utf8.encode "123456789ABCDEFGHJKLMNPQRSTUVWXYZabcdefghijkmnopqrstuvwxyz".toList

/- The key, and the network that its version names. -/
structure PaperWalletKey where
  wif : String
  keyNetwork : Option Network
deriving DecidableEq

structure Recipient where
  address : String
  kind : AddressKind
  isLegacyBase58 : Bool
  isBip21 : Bool
  amountRaw : Option String
  label : Option String
  message : Option String
deriving DecidableEq

inductive ScannedPayload where
  | cashConnect (uri : String)
  | walletConnect (uri : String)
  | wizardConnect (uri : String)
  | merchantProposal (initialPayload : String)
  | paperWallet (key : PaperWalletKey)
  | recipient (recipient : Recipient)
  | wrongNetwork (walletNetwork : Network)
  | unrecognised
deriving DecidableEq

--- Connections

/- `str::eq_ignore_ascii_case` -/
def eqIgnoreAsciiCase (left right : List Char) : Bool :=
  left.map Char.toLower = right.map Char.toLower

def hasScheme (value scheme : String) : Scanning Bool :=
  let trimmed := (Text.trim value).toList
  let length := Utf8.size scheme.toList
  if length < Utf8.size trimmed ∧ Utf8.isBoundary length trimmed = true
  then do
    let head ← orPanic (Utf8.sliceTo length trimmed)
    if eqIgnoreAsciiCase head scheme.toList then
      let rest ← orPanic (Utf8.sliceFrom length trimmed)
      .ok (!rest.any Text.isWhitespace)
    else .ok false
  else .ok false

def isCashconnectUri (value : String) : Scanning Bool := hasScheme value cashconnectUriScheme

def isWalletconnectUri (value : String) : Scanning Bool := hasScheme value walletconnectUriScheme

def isWizardconnectUri (value : String) : Scanning Bool := hasScheme value wizardconnectUriScheme

def isProposalChar (c : Char) : Bool := c.isAlphanum || ['+', '/', '=', '_', '-'].contains c

def isMerchantProposal (value : String) : Scanning Bool :=
  let trimmed := (Text.trim value).toList
  let expected := merchantProposalPrefix.toList
  match
    (Utf8.sliceTo (Utf8.size expected) trimmed).filter (fun head => eqIgnoreAsciiCase head expected)
  with
  | none => .ok false
  | some _ => do
      let rest ← orPanic (Utf8.sliceFrom (Utf8.size expected) trimmed)
      .ok (rest ≠ [] && rest.all isProposalChar)

--- Candidates For Keys

/- A candidate is remembered once. -/
def add (candidate : List Char) (out : List (List Char)) : List (List Char) :=
  if candidate = [] ∨ out.contains candidate = true then out
  else out ++ [candidate]

def isBase58 (byte : UInt8) : Bool := base58Alphabet.contains byte

def isAllBase58 (value : List Char) : Bool := value ≠ [] && (Utf8.encode value).all isBase58

/- The bytes from `index` on, in a run since `start`. -/
def runsLoop (value : List Char) :
    List UInt8 → Nat → Option Nat → List (List Char) → Scanning (List (List Char))
  | [], _, none, runs => .ok runs
  | [], _, some begin, runs => do
      let run ← orPanic (Utf8.sliceFrom begin value)
      .ok (runs ++ [run])
  | byte :: bytes, index, start, runs =>
    match isBase58 byte, start with
    | true, none => runsLoop value bytes (index + 1) (some index) runs
    | false, some begin => do
        let run ← orPanic (Utf8.slice begin index value)
        runsLoop value bytes (index + 1) none (runs ++ [run])
    | _, _ => runsLoop value bytes (index + 1) start runs

def base58Runs (value : List Char) : Scanning (List (List Char)) :=
  runsLoop value (Utf8.encode value) 0 none []

def wifShortest : Nat := 50

def wifLongest : Nat := 52

/- A run is cut in pieces of the longest length for as long as enough is left. -/
def cutRun : Nat → List Char → List (List Char) → Scanning (List (List Char))
  | 0, _, found => .ok found
  | fuel + 1, rest, found =>
    if wifShortest ≤ Utf8.size rest then do
      let take := min (Utf8.size rest) wifLongest
      let piece ← orPanic (Utf8.sliceTo take rest)
      let after ← orPanic (Utf8.sliceFrom take rest)
      cutRun fuel after (add piece found)
    else .ok found

/- `str::rfind` -/
def rfind (c : Char) (text : List Char) : Option Nat :=
  (rsplitOnce c text).map (fun parts => Utf8.size parts.1)

/- The text after the last colon is a candidate too. -/
def addSuffix (trimmed : List Char) (found : List (List Char)) : Scanning (List (List Char)) :=
  match rfind ':' trimmed with
  | none => .ok found
  | some index => do
      let after ← orPanic (Utf8.sliceFrom (index + 1) trimmed)
      let suffix := trimChars after
      if suffix ≠ trimmed ∧ isAllBase58 suffix = true then .ok (add suffix found)
      else .ok found

def wifCandidates (value : String) : Scanning (List (List Char)) := do
  let trimmed := (Text.trim value).toList
  let whole :=
    if isAllBase58 trimmed then add trimmed [] else []
  let runs ← base58Runs trimmed
  let found ← runs.foldlM (fun found run => cutRun (Utf8.size run) run found) whole
  addSuffix trimmed found

--- Base58

/- `carry += 58 * digit` in words of 32 bits, from the last digit on. -/
def feedDigit (digit : UInt8) (state : Nat × List UInt8) : Scanning (Nat × List UInt8) :=
  let carry := state.1 + 58 * digit.toNat
  if carry < 2 ^ 32 then .ok (carry / 256, UInt8.ofNat (carry % 256) :: state.2)
  else .error .panic

/- A word of 32 bits has four bytes. -/
def pushCarry : Nat → Nat → List UInt8 → List UInt8
  | 0, _, digits => digits
  | fuel + 1, carry, digits =>
    if 0 < carry then pushCarry fuel (carry / 256) (UInt8.ofNat (carry % 256) :: digits)
    else digits

def feedByte (digits : Option (List UInt8)) (byte : UInt8) : Scanning (Option (List UInt8)) :=
  match digits, base58Alphabet.idxOf? byte with
  | some digits, some value => do
      let fed ← digits.foldrM feedDigit (value, [])
      .ok (some (pushCarry 4 fed.1 fed.2))
  | _, _ => .ok none

def base58Decode (input : List Char) : Scanning (Option (List UInt8)) := do
  let digits ← (Utf8.encode input).foldlM feedByte (some [])
  .ok (digits.map
      (fun digits =>
        ((Utf8.encode input).takeWhile (fun byte => byte == 0x31)).map (fun _ => 0) ++ digits))

variable (sha256 : List UInt8 → Vector UInt8 32)

/- The body, once its checksum of four bytes is verified. -/
def base58checkDecode (input : List Char) : Scanning (Option (List UInt8)) := do
  match ← base58Decode input with
  | none => .ok none
  | some raw =>
    if raw.length < 5 then .ok none
    else
      let body := raw.take (raw.length - 4)
      let digest := sha256 (sha256 body).toList
      if digest.toList.take 4 = raw.drop (raw.length - 4) then .ok (some body)
      else .ok none

def wifNetwork (version : UInt8) : Option Network :=
  if version = 0x80 then some .mainnet
  else if version = 0xef then some .chipnet
  else none

/- A version and a key, and a marker where the public key is compressed. -/
def wellFormed (body : List UInt8) : Scanning Bool :=
  if body.length = 33 then .ok true
  else if body.length = 34 then do
    let marker ← orPanic body[33]?
    .ok (marker = 0x01)
  else .ok false

def decodeWif (candidate : List Char) : Scanning (Option PaperWalletKey) := do
  match ← base58checkDecode sha256 candidate with
  | none => .ok none
  | some body =>
    match body.head?.bind wifNetwork with
    | none => .ok none
    | some network => do
        let valid ← wellFormed body
        .ok (if valid then some { wif := String.ofList candidate, keyNetwork := some network }
          else none)

/- The first candidate that is a key. -/
def findKey : List (List Char) → Scanning (Option PaperWalletKey)
  | [] => .ok none
  | candidate :: candidates => do
      match ← decodeWif sha256 candidate with
      | some key => .ok (some key)
      | none => findKey candidates

def legacyKind (version : UInt8) : Option AddressKind :=
  if version = 0x00 then some .p2pkh
  else if version = 0x05 then some .p2sh
  else none

def isLegacyAddress (candidate : List Char) : Scanning Bool := do
  let body ← base58checkDecode sha256 candidate
  .ok (body.any (fun body => body.length = 21))

--- Queries

def hexDigitValue (c : Char) : Option Nat :=
  if c.isDigit then some (c.toNat - '0'.toNat)
  else if 'a' ≤ c ∧ c ≤ 'f' then some (c.toNat - 'a'.toNat + 10)
  else if 'A' ≤ c ∧ c ≤ 'F' then some (c.toNat - 'A'.toNat + 10)
  else none

/- `u8::from_str_radix`: a plus sign may stand before the digits. -/
def byteFromHex (text : List Char) : Option UInt8 := do
  let digits := (text.dropPrefix? ['+']).getD text
  let values ← digits.mapM hexDigitValue
  let value := values.foldl (fun value digit => value * 16 + digit) 0
  if digits = [] ∨ 256 ≤ value then none
  else some (UInt8.ofNat value)

/- The bytes from `index` on: a plus sign is a blank, and two digits behind a percent sign are a
   byte. -/
def decodeLoop (value : List Char) : Nat → Nat → List UInt8 → Scanning (List UInt8)
  | 0, _, out => .ok out
  | fuel + 1, index, out =>
    match (Utf8.encode value)[index]? with
    | none => .ok out
    | some byte =>
      if byte = 0x2b then decodeLoop value fuel (index + 1) (out ++ [0x20])
      else if byte = 0x25 ∧ index + 2 < Utf8.size value
      then do
          let hex ← orPanic (Utf8.slice (index + 1) (index + 3) value)
          match byteFromHex hex with
          | some decoded => decodeLoop value fuel (index + 3) (out ++ [decoded])
          | none => decodeLoop value fuel (index + 1) (out ++ [0x25])
      else decodeLoop value fuel (index + 1) (out ++ [byte])

def decodeQueryComponent (value : List Char) : Scanning (List Char) := do
  let out ← decodeLoop value (Utf8.size value) 0 []
  .ok (Utf8.lossy out)

def isBlank (text : List Char) : Bool := text.all Text.isWhitespace

/- The first value for a key that is not blank. -/
def valueOf (key : String) : List (List Char) → Scanning (Option (List Char))
  | [] => .ok none
  | pair :: pairs =>
    match Cashaddr.splitOnce '=' pair with
    | none => valueOf key pairs
    | some (name, value) => do
        let decoded ← decodeQueryComponent name
        if decoded = key.toList then
          let text ← decodeQueryComponent value
          if isBlank text then valueOf key pairs
          else .ok (some text)
        else valueOf key pairs

def queryValue (query : List Char) (key : String) : Scanning (Option (List Char)) :=
  valueOf key (query.splitOn '&')

--- Amounts

/- What `str::parse` reads as a float, before it is rounded. -/
inductive FloatText where
  | nan
  | infinite
  | decimal (mantissa : Nat) (exponent : Int)
deriving DecidableEq

/- A sign that may stand there, and what is behind it. -/
def stripSign : List Char → Bool × List Char
  | '-' :: text => (true, text)
  | '+' :: text => (false, text)
  | text => (false, text)

def isExponentMark (c : Char) : Bool := c = 'e' || c = 'E'

def parseDigits (digits : List Char) : Option Nat :=
  if digits = [] ∨ digits.all Char.isDigit = false then none
  else some (Nat.ofDigitChars 10 digits 0)

def parseExponent (text : List Char) : Option Int :=
  let signed := stripSign text
  (parseDigits signed.2).map
    (fun value =>
      if signed.1 then -(value : Int) else (value : Int))

def parseDecimal (text : List Char) : Option FloatText := do
  let number := text.takeWhile (fun c => !isExponentMark c)
  let tail := text.dropWhile (fun c => !isExponentMark c)
  let parts := (Cashaddr.splitOnce '.' number).getD (number, [])
  let mantissa ← parseDigits (parts.1 ++ parts.2)
  let exponent ←
    match tail with
    | [] => some 0
    | _ :: exponent => parseExponent exponent
  some (.decimal mantissa (exponent - parts.2.length))

/- `f64::from_str`, with whether there is a minus sign. -/
def parseFloat (text : List Char) : Option (Bool × FloatText) :=
  let signed := stripSign text
  let lower := signed.2.map Char.toLower
  if lower = "nan".toList then some (signed.1, .nan)
  else if lower = "inf".toList ∨ lower = "infinity".toList
  then some (signed.1, .infinite)
  else (parseDecimal signed.2).map (Prod.mk signed.1)

/- Whether the nearest double is positive and finite: above half of the least one and below the
   midpoint that rounds to infinity. -/
def FloatText.isPositiveFinite : FloatText → Bool
  | nan => false
  | infinite => false
  | decimal mantissa exponent =>
    let numerator := mantissa * 10 ^ exponent.toNat
    let denominator := 10 ^ (-exponent).toNat
    denominator < numerator * 2 ^ 1075 && numerator < (2 ^ 1024 - 2 ^ 970) * denominator

/- The amount as it is written, where it is a positive and finite number. -/
def amountRaw (query : List Char) : Scanning (Option String) := do
  match ← queryValue query "amount" with
  | none => .ok none
  | some raw =>
    let trimmed := trimChars raw
    match parseFloat trimmed with
    | some (false, value) =>
      .ok
        (if value.isPositiveFinite then some (String.ofList trimmed)
        else none)
    | _ => .ok none

--- Classification

/- The address and the query behind it. -/
def splitQuery (scanned : List Char) : List Char × List Char :=
  match Cashaddr.splitOnce '?' scanned with
  | some (address, query) => (trimChars address, query)
  | none => (scanned, [])

variable (tables : UnicodeTables)

/- The prefix that is declared, and what is behind it. -/
def splitDeclared (addressPart : List Char) : Option (List Char) × List Char :=
  match rsplitOnce ':' addressPart with
  | some (declared, rest) => (some (tables.toLowercase declared), trimChars rest)
  | none => (none, addressPart)

/- Regtest has no counterpart. -/
def opposite : Network → Network
  | .mainnet => .chipnet
  | .chipnet => .mainnet
  | .regtest => .mainnet

def kindOfBody (body : Option (List UInt8)) : Scanning (Option AddressKind) :=
  match body with
  | none => .ok none
  | some body => do
      let version ← orPanic body[0]?
      .ok (legacyKind version)

section

variable (network : Network) (noPrefix : List Char) (isBip21 : Bool)
  (amountRaw label message : Option String)

/- The versions of the main network, on the main network. -/
def legacyPayload : Scanning ScannedPayload := do
  let body ← base58checkDecode sha256 noPrefix
  let kind ← kindOfBody body
  match kind.filter (fun _ => network = .mainnet) with
  | some kind =>
    .ok
      (.recipient
        { address := String.ofList noPrefix
          kind
          isLegacyBase58 := true
          isBip21
          amountRaw
          label
          message })
  | none => .ok (.wrongNetwork network)

/- Only the prefix of the network is decoded against. -/
def cashaddrPayload : Scanning ScannedPayload :=
  let candidate := network.addressPrefix ++ ":" ++ String.ofList noPrefix
  match Address.decode tables candidate with
  | .ok address => do
      let encoded ← orPanic address.encode
      .ok (.recipient
          { address := encoded
            kind := address.kind
            isLegacyBase58 := false
            isBip21
            amountRaw
            label
            message })
  | .error .panic => .error .panic
  | .error (.error _) => .ok .unrecognised

end

def classifyAddress (scanned : List Char) (network : Network) : Scanning ScannedPayload :=
  let (addressPart, query) := splitQuery scanned
  let isBip21 := query ≠ [] || addressPart.contains ':'
  let (declared, noPrefix) := splitDeclared tables addressPart
  if noPrefix = [] then .ok .unrecognised
  else if declared = some (opposite network).addressPrefix.toList
  then .ok (.wrongNetwork network)
  else do
    let label ← queryValue query "label"
    let message ← queryValue query "message"
    let amount ← amountRaw query
    if ← isLegacyAddress sha256 noPrefix then
      legacyPayload sha256 network noPrefix isBip21 amount (label.map String.ofList)
        (message.map String.ofList)
    else
      cashaddrPayload tables network noPrefix isBip21 amount (label.map String.ofList)
        (message.map String.ofList)

/- The order of the checks is part of the answer. -/
def classifyScannedPayload (input : String) (network : Network) : Scanning ScannedPayload := do
  let scanned := Text.trim input
  if scanned.toList = [] then .ok .unrecognised
  else if ← isCashconnectUri scanned then .ok (.cashConnect scanned)
  else if ← isWalletconnectUri scanned then .ok (.walletConnect scanned)
  else if ← isWizardconnectUri scanned then .ok (.wizardConnect scanned)
  else if ← isMerchantProposal scanned then .ok (.merchantProposal scanned)
  else
    let candidates ← wifCandidates scanned
    match ← findKey sha256 candidates with
    | some key => .ok (.paperWallet key)
    | none => classifyAddress sha256 tables scanned.toList network

end OptnWallet.Scan
