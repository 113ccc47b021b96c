import OptnWallet.Core.Multisig

/-
  Multisig addresses as the stateless crate derives them from the public keys of one address: its
  own sorting, script, bit regrouping and checksum.

  Main declarations:
    * `MultisigCore.convertBits` and `MultisigCore.encodeCashaddr`
    * `MultisigCore.inspectP2sh20Keys`
-/

--- Policies

namespace OptnWallet.MultisigCore

def maxCosigners : Nat := 15

def compressedPublicKeyLen : Nat := 33

def opCheckmultisig : UInt8 := 0xae

def opHash160 : UInt8 := 0xa9

def opEqual : UInt8 := 0x87

def cashaddrCharset : List Char :=
  "qpzry9x8gf2tvdw0s3jn54khce6mua7l".toList

inductive Network where
  | mainnet
  | chipnet
deriving DecidableEq

def Network.addressPrefix : Network → String
  | mainnet => "bitcoincash"
  | chipnet => "bchtest"

inductive MultisigError where
  | network (value : String)
  | policy (message : String)
  | publicKey (index : Nat) (reason : String)
deriving DecidableEq

structure MultisigInspection where
  threshold : UInt8
  totalSignatures : UInt8
  sortedPublicKeys : List (Vector UInt8 33)
  redeemScript : List UInt8
  scriptHash : Vector UInt8 20
  lockingScript : List UInt8
  address : String
  tokenAddress : String
deriving DecidableEq

def opcodeForSmallInteger (value : UInt8) : Except MultisigError UInt8 :=
  if 1 ≤ value ∧ value ≤ 16 then .ok (0x50 + value)
  else .error (.policy "multisig values must fit the OP_1 through OP_16 opcode range")

--- Digits

/- The accumulator, how many of its bits are pending, and what was converted. -/
structure Conversion where
  accumulator : UInt32
  bits : UInt32
  converted : List UInt8

/- The groups of the inner loop, which takes bits off the pending ones each time around. -/
def emitGroups (toBits maxValue : UInt32) : Nat → Conversion → Conversion
  | 0, state => state
  | fuel + 1, state =>
    if toBits ≤ state.bits then
      let bits := state.bits - toBits
      emitGroups toBits maxValue fuel
        { accumulator := state.accumulator
          bits
          converted := state.converted ++ [((state.accumulator >>> bits) &&& maxValue).toUInt8] }
    else state

def convertValue (fromBits toBits maxValue : UInt32) (state : Conversion) (value : UInt8) :
    Option Conversion :=
  if value.toUInt32 >>> fromBits ≠ 0 then none
  else
    let bits := state.bits + fromBits
    some (emitGroups toBits maxValue bits.toNat
        { accumulator := (state.accumulator <<< fromBits) ||| value.toUInt32
          bits
          converted := state.converted })

def convertBits (data : List UInt8) (fromBits toBits : UInt32) (pad : Bool) :
    Option (List UInt8) := do
  let maxValue := ((1 : UInt32) <<< toBits) - 1
  let state ← data.foldlM (convertValue fromBits toBits maxValue)
      { accumulator := 0, bits := 0, converted := [] }
  let rest := (state.accumulator <<< (toBits - state.bits)) &&& maxValue
  if pad then
    if 0 < state.bits then some (state.converted ++ [rest.toUInt8])
    else some state.converted
  else if fromBits ≤ state.bits ∨ rest ≠ 0 then none
  else some state.converted

/- One symbol of the checksum, with the generators added one after the other. -/
def polymodStep (checksum : UInt64) (value : UInt8) : UInt64 :=
  let top := (checksum >>> 35).toUInt8
  let checksum := ((checksum &&& 0x07ffffffff) <<< 5) ^^^ value.toUInt64
  let checksum :=
    if top &&& 0x01 ≠ 0 then checksum ^^^ 0x98f2bc8e61
    else checksum
  let checksum :=
    if top &&& 0x02 ≠ 0 then checksum ^^^ 0x0079b76d99e2
    else checksum
  let checksum :=
    if top &&& 0x04 ≠ 0 then checksum ^^^ 0xf33e5fb3c4
    else checksum
  let checksum :=
    if top &&& 0x08 ≠ 0 then checksum ^^^ 0xae2eabe2a8
    else checksum
  if top &&& 0x10 ≠ 0 then checksum ^^^ 0x1e4f43e470
  else checksum

def cashaddrPolymod (values : List UInt8) : UInt64 := values.foldl polymodStep 1 ^^^ 1

--- Addresses

/- Without a text where an index is out of range, or where the bytes do not convert. -/
def encodeCashaddr (addressPrefix : String) (payload : List UInt8) : Option String := do
  let payload5 ← convertBits payload 8 5 true
  let checksumInput :=
    (Cashaddr.utf8 addressPrefix.toList).map (fun byte => byte &&& 0x1f) ++ [0] ++ payload5 ++
      List.replicate 8 0
  let checksum := cashaddrPolymod checksumInput
  let digits ← payload5.mapM (fun value => cashaddrCharset[value.toNat]?)
  let checks ← (List.range 8).mapM
      (fun index =>
        cashaddrCharset[((checksum >>> UInt64.ofNat (5 * (7 - index))) &&& 0x1f).toNat]?)
  some (String.ofList (addressPrefix.toList ++ [':'] ++ digits ++ checks))

def cashaddrP2sh20 (network : Network) (tokenAware : Bool) (scriptHash : Vector UInt8 20) :
    Option String :=
  let version : UInt8 := if tokenAware then 0x18 else 0x08
  encodeCashaddr network.addressPrefix ([version] ++ scriptHash.toList)

--- Derivation

/- `sort_unstable` on byte arrays. -/
def sortUnstable (keys : List (Vector UInt8 33)) : List (Vector UInt8 33) :=
  keys.mergeSort
    (fun left right => decide (left.toList.map UInt8.toNat ≤ right.toList.map UInt8.toNat))

/- Whether two keys side by side are the same. -/
def hasEqualPair (keys : List (Vector UInt8 33)) : Bool :=
  (keys.zip keys.tail).any (fun pair => pair.1 == pair.2)

variable (sha256 : List UInt8 → Vector UInt8 32) (ripemd160 : List UInt8 → Vector UInt8 20)

def hash160 (data : List UInt8) : Vector UInt8 20 := ripemd160 (sha256 data).toList

/- What `expect` makes of a missing value. -/
def expected {α : Type} : Option α → Except (Fault MultisigError) α
  | some value => .ok value
  | none => .error .panic

def inspectScript (network : Network) (threshold totalSignatures : UInt8)
    (publicKeys : List (Vector UInt8 33)) (redeemScript : List UInt8) :
    Except (Fault MultisigError) MultisigInspection :=
  if 520 < redeemScript.length then
    .error (.error (.policy "multisig redeem script exceeds BCH's 520-byte push limit"))
  else do
    let scriptHash := hash160 sha256 ripemd160 redeemScript
    let address ← expected (cashaddrP2sh20 network false scriptHash)
    let tokenAddress ← expected (cashaddrP2sh20 network true scriptHash)
    .ok
      { threshold
        totalSignatures
        sortedPublicKeys := publicKeys
        redeemScript
        scriptHash
        lockingScript := [opHash160, 20] ++ scriptHash.toList ++ [opEqual]
        address
        tokenAddress }

def inspectP2sh20Keys (network : Network) (threshold : UInt8) (keys : List (Vector UInt8 33)) :
    Except (Fault MultisigError) MultisigInspection :=
  if ¬ (2 ≤ keys.length ∧ keys.length ≤ maxCosigners) then
    .error (.error (.policy "a P2SH multisig policy needs between 2 and 15 cosigners"))
  else if threshold < 2 ∨ keys.length < threshold.toNat then
    .error (.error (.policy ("multisig threshold must be between 2 and " ++ toString keys.length)))
  else
    let publicKeys := sortUnstable keys
    if hasEqualPair publicKeys then .error (.error (.policy
            "multisig public keys must be unique; duplicate keys make the threshold a fiction"))
    else do
      let totalSignatures := UInt8.ofNat publicKeys.length
      let m ← (opcodeForSmallInteger threshold).mapError Fault.error
      let n ← (opcodeForSmallInteger totalSignatures).mapError Fault.error
      inspectScript sha256 ripemd160 network threshold totalSignatures publicKeys
        ([m] ++
          publicKeys.flatMap (fun key => [UInt8.ofNat compressedPublicKeyLen] ++ key.toList) ++
          [n, opCheckmultisig])

end OptnWallet.MultisigCore
