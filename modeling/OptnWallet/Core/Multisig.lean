import Mathlib.Data.List.Destutter
import Mathlib.Data.String.Basic
import OptnWallet.Core.Cashaddr

/-
  Multisig wallets from the account keys of their cosigners. The public keys of a redeem script
  are sorted, so that every cosigner arrives at the same addresses.

  Main declarations:
    * `normalizeMasterFingerprint`
    * `Bip32.parseMultisigAccountXpub`
    * `Multisig.redeemScript`
    * `Multisig.multisigPreview`
-/

--- Account Keys

namespace OptnWallet

/- The hexadecimal digits of ASCII, in both cases. -/
def isAsciiHexdigit (c : Char) : Bool := c.isDigit || ('A' ≤ c && c ≤ 'F') || ('a' ≤ c && c ≤ 'f')

/- An empty fingerprint is an absent one. -/
def normalizeMasterFingerprint (raw : String) : Except CliError (Option String) :=
  let trimmed := Text.trim raw
  if trimmed.toList = [] then .ok none
  else if trimmed.utf8ByteSize ≠ 8 ∨ trimmed.toList.all isAsciiHexdigit = false
  then .error (.usage "master fingerprint must be exactly 8 hexadecimal characters")
  else .ok (some (String.ofList (trimmed.toList.map Char.toLower)))

/-
  Extended public keys, which come from a dependency, and the digest of a script.
-/
structure Bip32 (κ : Type) where
  fromStr : String → Option κ
  depth : κ → UInt8
  isHardened : κ → Bool
  childNumber : UInt32 → Bool → Except String UInt32
  deriveChild : κ → UInt32 → Except String κ
  toBytes : κ → Vector UInt8 33
  hash160 : List UInt8 → Vector UInt8 20

namespace Hd

/- The digest of a script, from the two that a dependency has. -/
def hash160 (sha256 : List UInt8 → Vector UInt8 32) (ripemd160 : List UInt8 → Vector UInt8 20)
    (bytes : List UInt8) : Vector UInt8 20 := ripemd160 (sha256 bytes).toList

end Hd

variable {κ : Type}

/- An account of a single signer has depth three, and one of a multisig wallet has depth four. -/
def Bip32.parseMultisigAccountXpub (bip32 : Bip32 κ) (raw : String) : Except CliError κ :=
  let trimmed := Text.trim raw
  if trimmed.toList = [] then .error (.usage "enter a valid BCH account xPub")
  else
    match bip32.fromStr trimmed with
    | none => .error (.usage "enter a valid BIP32 public key")
    | some xpub =>
      if ¬ (bip32.depth xpub = 3 ∨ bip32.depth xpub = 4) ∨ bip32.isHardened xpub = false
      then .error (.usage
            "use a hardened account xPub: depth 3 for BIP44, or depth 4 for a BIP48 multisig              account")
      else .ok xpub

--- Redeem Scripts

namespace Multisig

def opCheckmultisig : UInt8 := 0xae

def op1 : UInt8 := 0x51

def push33 : UInt8 := 0x21

def maxCosigners : Nat := 16

structure Cosigner where
  name : String
  accountXpub : String
  masterFingerprint : Option String
deriving DecidableEq

structure MultisigPreview where
  required : UInt8
  total : UInt8
  policy : String
  receive : PublicAddressPreview
  change : PublicAddressPreview
  cosignerNames : List String
deriving DecidableEq

def smallIntegerOpcode (value : Nat) : Except CliError UInt8 :=
  if 1 ≤ value ∧ value ≤ maxCosigners then .ok (op1 - 1 + UInt8.ofNat value)
  else
    .error (.usage ("multisig thresholds must be between 1 and 16 (got " ++ toString value ++ ")"))

/- The bytes of a key, in the order they are compared in. -/
def keyBytes (key : Vector UInt8 33) : List Nat := key.toList.map UInt8.toNat

def sortPublicKeysBip67 (keys : List (Vector UInt8 33)) : List (Vector UInt8 33) :=
  keys.mergeSort (fun left right => decide (keyBytes left ≤ keyBytes right))

def redeemScript (required : UInt8) (keys : List (Vector UInt8 33)) :
    Except CliError (List UInt8) :=
  if keys = [] then .error (.usage "a multisig redeem script needs at least one public key")
  else if keys.length < required.toNat then .error (.usage
        ("cannot require " ++ toString required ++ " signatures from " ++ toString keys.length ++
          " cosigners"))
  else do
    let m ← smallIntegerOpcode required.toNat
    let n ← smallIntegerOpcode keys.length
    .ok ([m] ++ (sortPublicKeysBip67 keys).flatMap (fun key => [push33] ++ key.toList) ++
        [n, opCheckmultisig])

--- Previews

variable (bip32 : Bip32 κ) (network : Network)

def p2shAddress (redeem : List UInt8) (tokenAware : Bool) : Except (Fault CliError) String :=
  let address : Address :=
    { kind := if tokenAware then .p2shToken else .p2sh
      hash := bip32.hash160 redeem
      addressPrefix := network.addressPrefix }
  match address.encode with
  | some text => .ok text
  | none => .error .panic

def cosignerPublicKey (account : κ) (branch index : UInt32) :
    Except CliError (Vector UInt8 33) := do
  let branchNumber ←
    (bip32.childNumber branch false).mapError (fun e => .internal ("invalid branch index: " ++ e))
  let branchKey ← (bip32.deriveChild account branchNumber).mapError
      (fun e => .usage ("could not derive cosigner branch: " ++ e))
  let indexNumber ←
    (bip32.childNumber index false).mapError (fun e => .internal ("invalid address index: " ++ e))
  let child ← (bip32.deriveChild branchKey indexNumber).mapError
      (fun e => .usage ("could not derive cosigner address: " ++ e))
  .ok (bip32.toBytes child)

def branchAddress (required : UInt8) (accounts : List κ) (branch index : UInt32) :
    Except (Fault CliError) PublicAddressPreview := do
  let keys ← (accounts.mapM (fun account => cosignerPublicKey bip32 account branch index)).mapError
      Fault.error
  let script ← (redeemScript required keys).mapError Fault.error
  let address ← p2shAddress bip32 network script false
  let tokenAddress ← p2shAddress bip32 network script true
  .ok
    { path := toString branch ++ "/" ++ toString index
      address
      tokenAddress }

/- The fingerprint is not in the script, and is validated all the same. -/
def cosignerAccount (bip32 : Bip32 κ) (cosigner : Cosigner) : Except CliError κ := do
  let _ ← normalizeMasterFingerprint (cosigner.masterFingerprint.getD "")
  bip32.parseMultisigAccountXpub cosigner.accountXpub

/- Two slots that one signer can satisfy alone. -/
def sharesKey (keys : List (Vector UInt8 33)) : Bool :=
  let seen := sortPublicKeysBip67 keys
  (seen.destutter (fun left right => left ≠ right)).length ≠ seen.length

def displayName (name : String) (position : Nat) : String :=
  let trimmed := Text.trim name
  if trimmed.toList = [] then "Cosigner " ++ toString (position + 1)
  else trimmed

def multisigPreview (required : UInt8) (cosigners : List Cosigner) :
    Except (Fault CliError) MultisigPreview :=
  if cosigners.length < 2 then
    .error (.error (.usage "a multisig wallet needs at least two cosigners"))
  else if maxCosigners < cosigners.length then
    .error (.error (.usage "a multisig wallet supports at most 16 cosigners"))
  else if required = 0 ∨ cosigners.length < required.toNat
  then .error
      (.error (.usage ("require between 1 and " ++ toString cosigners.length ++ " signatures")))
  else do
    let accounts ← (cosigners.mapM (cosignerAccount bip32)).mapError Fault.error
    if sharesKey (accounts.map bip32.toBytes) = true then
      .error
        (.error (.usage "two cosigners share an account xPub; each cosigner needs a distinct key"))
    else do
      let receive ← branchAddress bip32 network required accounts 0 0
      let change ← branchAddress bip32 network required accounts 1 0
      .ok
        { required
          total := UInt8.ofNat cosigners.length
          policy := toString required ++ " of " ++ toString cosigners.length
          receive
          change
          cosignerNames :=
            cosigners.zipIdx.map
              (fun entry => displayName entry.1.name entry.2) }

end Multisig

end OptnWallet
