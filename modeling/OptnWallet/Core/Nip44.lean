import OptnWallet.Core.Varint
import OptnWallet.Library.Base64
import OptnWallet.Library.Words

/-
  Messages between peers that agreed on a key: padded to a bucket, encrypted by a key stream and
  authenticated over the nonce and the ciphertext.

  Main declarations:
    * `Nip44.paddedLength`, `Nip44.pad` and `Nip44.unpad`
    * `Nip44.messageKeys`
    * `Nip44.encrypt` and `Nip44.decrypt`
-/

--- Primitives

namespace OptnWallet.Nip44

/-
  What the message scheme is built from: a keyed digest of 32 bytes, and the key stream of a key
  and a nonce, which is added to the bytes.
-/
structure Primitives where
  hmac : List UInt8 → List UInt8 → Vector UInt8 32
  keystream : List UInt8 → List UInt8 → Nat → UInt8

def nip44Version : UInt8 := 2

def minPlaintextLen : Nat := 1

def maxPlaintextLen : Nat := 65535

def minPayloadLen : Nat := 132

def maxPayloadLen : Nat := 87472

/- The key two peers share. -/
abbrev ConversationKey := Vector UInt8 32

--- Message Keys

structure MessageKeys where
  chachaKey : List UInt8
  chachaNonce : List UInt8
  hmacKey : List UInt8

/- Blocks until the length is reached.  Each adds 32 bytes, so that `fuel` is at most the length
   that is left. -/
def hkdfBlocks (primitives : Primitives) (prk info : List UInt8) (length : Nat) :
    Nat → UInt8 → List UInt8 → List UInt8 → List UInt8
  | 0, _, _, out => out
  | fuel + 1, counter, previous, out =>
    if out.length < length then
      let next := (primitives.hmac prk (previous ++ (info ++ [counter]))).toList
      hkdfBlocks primitives prk info length fuel (counter + 1) next (out ++ next)
    else out

def hkdfExpand (primitives : Primitives) (prk info : List UInt8) (length : Nat) : List UInt8 :=
  (hkdfBlocks primitives prk info length length 1 [] []).take length

variable (primitives : Primitives)

def messageKeys (key : ConversationKey) (nonce : Vector UInt8 32) : MessageKeys :=
  let expanded := hkdfExpand primitives key.toList nonce.toList 76
  { chachaKey := expanded.take 32
    chachaNonce := (expanded.drop 32).take 12
    hmacKey := (expanded.drop 44).take 32 }

/- The key stream is added from its start. -/
def applyKeystream (keys : MessageKeys) (bytes : List UInt8) : List UInt8 :=
  bytes.mapIdx (fun i byte => byte ^^^ primitives.keystream keys.chachaKey keys.chachaNonce i)

/- Over the nonce and the ciphertext. -/
def tag (hmacKey : List UInt8) (nonce : Vector UInt8 32) (ciphertext : List UInt8) : List UInt8 :=
  (primitives.hmac hmacKey (nonce.toList ++ ciphertext)).toList

--- Padding

/- The shift stays in a word up to a length of `2 ^ 63`, and no slice is longer. -/
def paddedLength (unpadded : Nat) : Nat :=
  if unpadded ≤ 32 then 32
  else
    let nextPower := 1 <<< Word64.bitWidth (unpadded - 1)
    let chunk := if nextPower ≤ 256 then 32 else nextPower / 8
    chunk * ((unpadded - 1) / chunk + 1)

/- A length as two bytes, the higher one first. -/
def lengthBytes (length : Nat) : List UInt8 :=
  [UInt8.ofNat (length / 256), UInt8.ofNat (length % 256)]

/- `Vec::resize`, with zeros. -/
def resize (bytes : List UInt8) (length : Nat) : List UInt8 :=
  bytes.take length ++ List.replicate (length - bytes.length) 0

def pad (plaintext : List UInt8) : Except CliError (List UInt8) :=
  if minPlaintextLen ≤ plaintext.length ∧ plaintext.length ≤ maxPlaintextLen
  then .ok (resize (lengthBytes plaintext.length ++ plaintext) (2 + paddedLength plaintext.length))
  else .error (.usage ("a NIP-44 message is between " ++ toString minPlaintextLen ++ " and " ++
          toString maxPlaintextLen ++ " bytes, got " ++ toString plaintext.length))

def unpad : List UInt8 → Except CliError (List UInt8)
  | high :: low :: body =>
    let declared := high.toNat * 256 + low.toNat
    if declared < minPlaintextLen ∨ body.length < declared
    then .error (.protocol "padded message declares a length it does not hold")
    else if body.length ≠ paddedLength declared then
      .error (.protocol "padded message is not the size its length implies")
    else .ok (body.take declared)
  | _ => .error (.protocol "padded message is too short")

--- Messages

def utf8 (text : String) : List UInt8 := text.toByteArray.data.toList

def encrypt (key : ConversationKey) (plaintext : String) (nonce : Vector UInt8 32) :
    Except CliError String := do
  let padded ← pad (utf8 plaintext)
  let keys := messageKeys primitives key nonce
  let ciphertext := applyKeystream primitives keys padded
  let mac := tag primitives keys.hmacKey nonce ciphertext
  .ok (String.ofList (Base64.encode (nip44Version :: (nonce.toList ++ (ciphertext ++ mac)))))

/- What a payload holds behind its version. -/
structure Frame where
  nonce : Vector UInt8 32
  ciphertext : List UInt8
  claimed : List UInt8

/- The fields of the decoded bytes. -/
def cutFrame (raw : List UInt8) : Except CliError Frame :=
  if hShort : raw.length < 1 + 32 + 32 + 1 then
    .error (.protocol "payload is too short to hold a message")
  else if raw.head? ≠ some nip44Version then .error
      (.protocol ("unsupported NIP-44 version " ++ toString (raw.headD 0).toNat ++
          "; this wallet speaks version " ++ toString nip44Version.toNat))
  else .ok
      { nonce :=
          ⟨((raw.drop 1).take 32).toArray, by
            simp only [List.size_toArray, List.length_take, List.length_drop]
            omega⟩
        ciphertext := (raw.drop 33).take (raw.length - 65)
        claimed := raw.drop (raw.length - 32) }

/- A payload is bounded before any of it is decoded. -/
def parseFrame (payload : String) : Except CliError Frame :=
  if payload.toList.head? = some (Char.ofNat 35) then
    .error (.protocol "this message uses a newer encryption version than this wallet understands")
  else if payload.utf8ByteSize < minPayloadLen ∨ maxPayloadLen < payload.utf8ByteSize
  then .error (.protocol ("a NIP-44 payload is between " ++ toString minPayloadLen ++ " and " ++
          toString maxPayloadLen ++ " characters, got " ++ toString payload.utf8ByteSize))
  else
    match Base64.decode payload.toList with
    | none => .error (.protocol "payload is not base64")
    | some raw => cutFrame raw

def decrypt (key : ConversationKey) (payload : String) : Except CliError String := do
  let frame ← parseFrame payload
  let keys := messageKeys primitives key frame.nonce
  let expected := tag primitives keys.hmacKey frame.nonce frame.ciphertext
  if expected ≠ frame.claimed then
    .error
      (.protocol
        "this message failed its authentication check; it was altered in transit or is not for this conversation")
  else do
    let plaintext ← unpad (applyKeystream primitives keys frame.ciphertext)
    match String.fromUTF8? ⟨plaintext.toArray⟩ with
    | some text => .ok text
    | none => .error (.protocol "decrypted message is not valid UTF-8")

end OptnWallet.Nip44
