import Mathlib.Algebra.Order.Ring.Nat

/-
  Block-header validation: the hashes, the serialized fields, the target a header declares and the
  linkage to its predecessor.  Big integers are natural numbers.

  A hash is a 32-byte array in the source.  The digest itself comes from a dependency, so hashes
  are an abstract type with the operations the header code performs on them.

  Main declarations:
    * `parseHeader`
    * `targetFromCompact`
    * `verifyDeclaredPow` and `verifyLink`
-/

namespace OptnWallet

/- A block header as it travels: 80 bytes. -/
structure BlockHeaderBytes where
  bytes : Vector UInt8 80
deriving DecidableEq

/-
  The operations on 32-byte hashes: `[0; 32]`, the array a header slice copies, the little-endian
  value that proof-of-work compares, the double digest of a byte string and the double digest of
  two concatenated hashes.
-/
class Hash32 (H : Type) where
  zero : H
  ofBytes : Vector UInt8 32 → H
  toNatLE : H → Nat
  sha256d : List UInt8 → H
  sha256dPair : H → H → H

export Hash32 (sha256d sha256dPair)

/- The little-endian value of a byte string. -/
def natOfBytesLE (bytes : List UInt8) : Nat :=
  bytes.foldr (fun byte value => byte.toNat + 256 * value) 0

namespace BlockHeaderBytes

/- A byte string of exactly the length of a header. -/
def tryFrom (bytes : List UInt8) : Option BlockHeaderBytes :=
  if hLength : bytes.length = 80 then some ⟨⟨bytes.toArray, hLength⟩⟩
  else none

/- The little-endian word that starts at `start`. -/
def wordAt (header : BlockHeaderBytes) (start : Nat) : UInt32 :=
  UInt32.ofNat (natOfBytesLE ((header.bytes.toList.drop start).take 4))

@[simp]
theorem tryFrom_toList (header : BlockHeaderBytes) : tryFrom header.bytes.toList = some header := by
  rcases header with ⟨⟨bytes, hSize⟩⟩
  have hLength : bytes.toList.length = 80 := hSize
  simp [tryFrom, Vector.toList, hLength]

end BlockHeaderBytes

--- Symbolic Hashing

/-
  Hashes as terms: the pair of two hashes is a term of its own, so that pairs never collide.
-/
inductive SymbolicHash where
  | bytes (value : List UInt8)
  | node (left right : SymbolicHash)
deriving DecidableEq

/-
  A header's symbolic digest is its Merkle-root field, which the next header can name as its
  predecessor.
-/
instance : Hash32 SymbolicHash where
  zero := .bytes (List.replicate 32 0)
  ofBytes value := .bytes value.toList
  toNatLE
    | .bytes value => natOfBytesLE value
    | .node _ _ => 0
  sha256d value := .bytes ((value.drop 36).take 32)
  sha256dPair := .node

theorem SymbolicHash.pair_injective :
    Function.Injective2 (sha256dPair : SymbolicHash → SymbolicHash → SymbolicHash) := by
  intro a b c d hNode
  exact SymbolicHash.node.inj hNode

--- Recorded Hashing

/-
  Hashes read off a table: the Merkle-root field of a header numbers its entry, so that digests of
  concrete headers can be replayed.  Pairs are terms.
-/
inductive RecordedHash (digests : List Nat) where
  | digest (value : Nat)
  | node (left right : RecordedHash digests)
deriving DecidableEq

instance (digests : List Nat) : Hash32 (RecordedHash digests) where
  zero := .digest 0
  ofBytes value := .digest (natOfBytesLE value.toList)
  toNatLE
    | .digest value => value
    | .node _ _ => 0
  sha256d value := .digest (digests.getD (natOfBytesLE ((value.drop 36).take 32)) 0)
  sha256dPair := .node

theorem RecordedHash.pair_injective {digests : List Nat} :
    Function.Injective2
      (sha256dPair : RecordedHash digests → RecordedHash digests → RecordedHash digests) := by
  intro a b c d hNode
  exact RecordedHash.node.inj hNode

/- `count` bytes of a number, the lowest first. -/
def bytesLE (value count : Nat) : List UInt8 :=
  (List.range count).map (fun i => UInt8.ofNat (value / 256 ^ i % 256))

/- A version-one header that declares the regtest limit. -/
def regtestHeader (prevHash merkleRoot time nonce : Nat) : BlockHeaderBytes :=
  { bytes :=
      ⟨(bytesLE 1 4 ++ bytesLE prevHash 32 ++ bytesLE merkleRoot 32 ++ bytesLE time 4 ++
          bytesLE 0x207fffff 4 ++ bytesLE nonce 4).toArray, by simp [bytesLE]⟩ }

/- Consecutive headers, numbered by their Merkle roots. -/
def regtestChain (prevHash number : Nat) : List (Nat × Nat × Nat) → List BlockHeaderBytes
  | [] => []
  | (time, nonce, digest) :: headers =>
    regtestHeader prevHash number time nonce :: regtestChain digest (number + 1) headers

--- Serialized Headers

structure ParsedHeader (H : Type) where
  hash : H
  prevHash : H
  time : UInt32
  bits : UInt32
  nonce : UInt32
deriving DecidableEq

inductive HeaderPowError (H : Type) where
  | negativeTarget
  | zeroTarget
  | targetOverflow
  | insufficientWork
  | linkMismatch (expected actual : H)
deriving DecidableEq

variable {H : Type} [Hash32 H]

def parseHeader (header : BlockHeaderBytes) : ParsedHeader H :=
  { hash := sha256d header.bytes.toList
    prevHash := Hash32.ofBytes (header.bytes.extract 4 36)
    time := header.wordAt 68
    bits := header.wordAt 72
    nonce := header.wordAt 76 }

--- Declared Proof Of Work

/- The number of bits of a big integer. -/
def bitLength (value : Nat) : Nat :=
  if value = 0 then 0 else value.log2 + 1

/- Decode a compact target. -/
def targetFromCompact (bits : UInt32) : Except (HeaderPowError H) Nat :=
  let exponent := (bits >>> 24).toNat
  let mantissa := (bits &&& 0x007fffff).toNat
  if bits &&& 0x00800000 ≠ 0 then .error .negativeTarget
  else if mantissa = 0 then .error .zeroTarget
  else
    let target :=
      if exponent ≤ 3 then mantissa >>> (8 * (3 - exponent))
      else mantissa <<< (8 * (exponent - 3))
    if 256 < bitLength target then .error .targetOverflow
    else if target = 0 then .error .zeroTarget
    else .ok target

/- The header hash may not exceed the declared target. -/
def verifyDeclaredPow (header : BlockHeaderBytes) : Except (HeaderPowError H) (ParsedHeader H) :=
  let parsed := parseHeader header
  match targetFromCompact parsed.bits with
  | .error e => .error e
  | .ok target =>
    let hashValue := Hash32.toNatLE parsed.hash
    if target < hashValue then .error .insufficientWork
    else .ok parsed

def verifyLink [DecidableEq H] (expectedPrevHash : H) (header : BlockHeaderBytes) :
    Except (HeaderPowError H) (ParsedHeader H) :=
  match verifyDeclaredPow header with
  | .error e => .error e
  | .ok parsed =>
    if parsed.prevHash ≠ expectedPrevHash then
      .error (.linkMismatch expectedPrevHash parsed.prevHash)
    else .ok parsed

--- Accepted Headers Are Parsed Headers

theorem verifyDeclaredPow_eq_ok {header : BlockHeaderBytes} {parsed : ParsedHeader H}
    (hOk : verifyDeclaredPow header = .ok parsed) : parsed = parseHeader header := by
  unfold verifyDeclaredPow at hOk
  dsimp only at hOk
  split at hOk
  · cases hOk
  · split at hOk
    · cases hOk
    · cases hOk
      rfl

theorem verifyLink_eq_ok [DecidableEq H] {expectedPrevHash : H} {header : BlockHeaderBytes}
    {parsed : ParsedHeader H} (hOk : verifyLink expectedPrevHash header = .ok parsed) :
    verifyDeclaredPow header = .ok parsed ∧ parsed.prevHash = expectedPrevHash := by
  unfold verifyLink at hOk
  split at hOk
  · cases hOk
  · rename_i own hPow
    split at hOk
    · cases hOk
    · rename_i hPrev
      cases hOk
      exact ⟨hPow, not_not.mp hPrev⟩

end OptnWallet
