import OptnWallet.Core.Multisig
import OptnWallet.Library.SortedLists
import OptnWallet.Library.StagedUpdate

/-
  Policies as descriptors: a text that names the threshold and the account key of every cosigner
  with its origin, and ends in a checksum.  The addresses of a policy do not depend on the order
  its cosigners come in.

  Main declarations:
    * `Multisig.descriptorChecksum` and `Multisig.descriptorSet`
    * `Multisig.parseDescriptorKey` and `Multisig.parseDescriptor`
    * `Multisig.previewAddresses_of_perm`
-/

--- Checksums

namespace OptnWallet.Multisig

/- The characters of a descriptor, in checksum order. -/
def descriptorInputCharset : List Char :=
  "0123456789()[],'/*abcdefgh@:$%\x7b\x7dIJKLMNOPQRSTUVWXYZ&+-.;<=>?!^_|~ijklmnopqrstuvwxyzABCDEFGH\x60#\x22\x5c ".toList

def descriptorChecksumCharset : List Char :=
  "qpzry9x8gf2tvdw0s3jn54khce6mua7l".toList

def descriptorGenerator : List UInt64 :=
  [0x00f5dee51989, 0x00a9fdca3312, 0x001bab10e32d, 0x003706b1677a, 0x00644d626ffd]

def descriptorPolymod (chk value : UInt64) : UInt64 :=
  let top := chk >>> 35
  (descriptorGenerator.zipIdx).foldl
    (fun chk entry =>
      if (top >>> UInt64.ofNat entry.2) &&& 1 = 1 then chk ^^^ entry.1
      else chk)
    (((chk &&& 0x07ffffffff) <<< 5) ^^^ value)

/- The register, and the high parts of the characters that are not in it yet. -/
structure ChecksumState where
  chk : UInt64
  groups : List UInt64

def ChecksumState.push (state : ChecksumState) (character : Char) : Option ChecksumState := do
  let position ← descriptorInputCharset.findIdx? (fun c => c = character)
  let position := UInt64.ofNat position
  let chk := descriptorPolymod state.chk (position &&& 31)
  let groups := state.groups ++ [position >>> 5]
  match groups with
  | [a, b, c] => some { chk := descriptorPolymod chk (a * 9 + b * 3 + c), groups := [] }
  | groups => some { chk, groups }

/- The register once the last groups are in it. -/
def ChecksumState.finish (state : ChecksumState) : UInt64 :=
  let chk :=
    match state.groups with
    | [a] => descriptorPolymod state.chk a
    | [a, b] => descriptorPolymod state.chk (a * 3 + b)
    | _ => state.chk
  (List.replicate 8 0).foldl descriptorPolymod chk ^^^ 1

/- No checksum where a character is not allowed. -/
def descriptorChecksum (descriptor : List Char) : Option (List Char) := do
  let state ← descriptor.foldlM ChecksumState.push { chk := 1, groups := [] }
  let chk := state.finish
  some ((List.range 8).map
      (fun index =>
        let symbol := (chk >>> UInt64.ofNat (5 * (7 - index))) &&& 31
        (descriptorChecksumCharset[symbol.toNat]?).getD 'q'))

def withDescriptorChecksum (descriptor : List Char) : Except CliError String :=
  match descriptorChecksum descriptor with
  | none => .error (.internal "descriptor contains a character the format does not allow")
  | some checksum => .ok (String.ofList (descriptor ++ ['#'] ++ checksum))

--- Export

structure DescriptorSet where
  receive : String
  change : String
deriving DecidableEq

/- What a key is sorted by, and how it is written. -/
structure ListedKey where
  sortKey : String
  text : List Char
deriving DecidableEq

/- The path below the master key. -/
def originPath (account : AccountPath) : List Char :=
  let path := account.toString.toList
  (path.dropPrefix? "m/".toList).getD path

def listedKey {κ : Type} (bip32 : Bip32 κ) (account : AccountPath) (index : Nat)
    (cosigner : Cosigner) : Except CliError ListedKey := do
  let normalized ← normalizeMasterFingerprint (cosigner.masterFingerprint.getD "")
  match normalized with
  | none =>
    .error
      (.usage ("cosigner " ++ toString (index + 1) ++
          " needs a master fingerprint before the wallet can be exported: a descriptor without key origins loads but cannot be signed against, because a signer cannot tell which key is its own"))
  | some fingerprint => do
      let _ ← bip32.parseMultisigAccountXpub cosigner.accountXpub
      let xpub := Text.trim cosigner.accountXpub
      .ok
        { sortKey := fingerprint ++ xpub
          text :=
            ['['] ++ fingerprint.toList ++ ['/'] ++ originPath account ++ [']'] ++ xpub.toList }

def descriptorBody (required : UInt8) (keys : List ListedKey) (branch : UInt32) : List Char :=
  let listed :=
    List.intercalate [',']
      (keys.map (fun key => key.text ++ ['/'] ++ (toString branch).toList ++ ['/', '*']))
  "sh(sortedmulti(".toList ++ (toString required).toList ++ [','] ++ listed ++ "))".toList

/- Strings are compared by their bytes, which orders them as their characters do. -/
def sortListedKeys (keys : List ListedKey) : List ListedKey :=
  keys.mergeSort (fun left right => decide (left.sortKey ≤ right.sortKey))

def descriptorSet {κ : Type} (bip32 : Bip32 κ) (required : UInt8) (cosigners : List Cosigner)
    (account : AccountPath) : Except CliError DescriptorSet :=
  if cosigners.length < 2 then .error (.usage "a multisig wallet needs at least two cosigners")
  else if required = 0 ∨ cosigners.length < required.toNat
  then .error (.usage
        ("threshold " ++ toString required ++ " is outside 1..=" ++ toString cosigners.length))
  else do
    let keys ← cosigners.zipIdx.mapM (fun entry => listedKey bip32 account entry.2 entry.1)
    let keys := sortListedKeys keys
    let receive ← withDescriptorChecksum (descriptorBody required keys 0)
    let change ← withDescriptorChecksum (descriptorBody required keys 1)
    .ok { receive, change }

--- Reading

def maxDescriptorLen : Nat := 10000

structure DescriptorKey where
  masterFingerprint : String
  accountPath : String
  accountXpub : String
deriving DecidableEq

structure ParsedDescriptor where
  required : UInt8
  keys : List DescriptorKey
  branches : List UInt32
  checksumVerified : Bool
deriving DecidableEq

/- `str::parse` of an unsigned integer below the bound: a plus sign may stand before the digits. -/
def parseUnsigned (bound : Nat) (text : List Char) : Option Nat :=
  let digits := (text.dropPrefix? ['+']).getD text
  if digits = [] ∨ digits.all Char.isDigit = false then none
  else
    let value := Nat.ofDigitChars 10 digits 0
    if value < bound then some value else none

def trimChars (text : List Char) : List Char := (Text.trim (String.ofList text)).toList

/- `str::rsplit_once` -/
def rsplitOnce (separator : Char) (text : List Char) : Option (List Char × List Char) :=
  (Cashaddr.splitOnce separator text.reverse).map (fun parts => (parts.2.reverse, parts.1.reverse))

/- `str::strip_prefix` and then `str::strip_suffix` -/
def stripAround (before after text : List Char) : Option (List Char) :=
  (text.dropPrefix? before).bind (fun rest => rest.dropSuffix? after)

/- A number is a branch, and `<0;1>` is several of them. -/
def branchTexts (position : Nat) (branchText : List Char) : Except CliError (List (List Char)) :=
  match stripAround ['<'] ['>'] branchText with
  | some inner =>
    let listed := inner.splitOn ';'
    if listed.length < 2 then .error (.usage ("cosigner " ++ toString position ++
            " writes a multipath of one branch, which is just a branch"))
    else .ok listed
  | none => .ok [branchText]

def addBranch (position : Nat) (branches : List UInt32) (text : List Char) :
    Except CliError (List UInt32) :=
  let text := trimChars text
  match parseUnsigned (2 ^ 32) text with
  | none => .error
      (.usage ("cosigner " ++ toString position ++ "'s branch '" ++ String.ofList text ++
          "' is not a number"))
  | some branch =>
    if branches.contains (UInt32.ofNat branch) then .error (.usage
          ("cosigner " ++ toString position ++ " lists branch " ++ toString branch ++ " twice"))
    else .ok (branches ++ [UInt32.ofNat branch])

/- The branches that follow a key, below which nothing can be hardened. -/
def parseDerivation (position : Nat) (derivation : List Char) : Except CliError (List UInt32) :=
  if derivation.contains (Char.ofNat 0x27) || derivation.contains 'h' || derivation.contains 'H'
  then .error (.usage ("cosigner " ++ toString position ++
          " asks for hardened derivation below its xPub, which needs the private key. A public descriptor cannot do that."))
  else
    let parts := (Cashaddr.splitOnce '/' derivation).getD (derivation, [])
    if parts.2 ≠ ['*'] then .error (.usage ("cosigner " ++ toString position ++
            " does not end in /*, so it names one address rather than a wallet"))
    else do
      let listed ← branchTexts position parts.1
      listed.foldlM (addBranch position) []

def orUsage {α : Type} (value : Option α) (message : String) : Except CliError α :=
  match value with
  | some value => .ok value
  | none => .error (.usage message)

def parseDescriptorKey {κ : Type} (bip32 : Bip32 κ) (part : List Char) (index : Nat) :
    Except CliError (DescriptorKey × List UInt32) := do
  let position := index + 1
  let rest ← orUsage (part.dropPrefix? ['['])
      ("cosigner " ++ toString position ++
        " has no key origin. A descriptor without one loads but cannot be signed against, because a signer cannot tell which key is its own.")
  let split ← orUsage (Cashaddr.splitOnce ']' rest)
      ("cosigner " ++ toString position ++ "'s key origin is not closed")
  let origin ← orUsage (Cashaddr.splitOnce '/' split.1)
      ("cosigner " ++ toString position ++ "'s key origin has no derivation path")
  let normalized ← normalizeMasterFingerprint (String.ofList origin.1)
  let fingerprint ←
    orUsage normalized ("cosigner " ++ toString position ++ " has an empty master fingerprint")
  let key ← orUsage (Cashaddr.splitOnce '/' split.2)
      ("cosigner " ++ toString position ++
        " has no branch after its key: expected something like /0/*")
  let branches ← parseDerivation position key.2
  let _ ← bip32.parseMultisigAccountXpub (String.ofList key.1)
  .ok
    ({ masterFingerprint := fingerprint
       accountPath := String.ofList ("m/".toList ++ origin.2)
       accountXpub := String.ofList key.1 },
      branches)

/- The keys that were read, and the branches they cover. -/
structure KeysRead where
  keys : List DescriptorKey
  branches : Option (List UInt32)
deriving DecidableEq

def debugBranches (branches : List UInt32) : String :=
  "[" ++ ", ".intercalate (branches.map toString) ++ "]"

/- Every key must cover the same branches. -/
def KeysRead.add (read : KeysRead) (index : Nat) (key : DescriptorKey) (keyBranches : List UInt32) :
    Except CliError KeysRead :=
  match read.branches with
  | none => .ok { keys := read.keys ++ [key], branches := some keyBranches }
  | some known =>
    if known ≠ keyBranches then .error
        (.usage ("cosigner " ++ toString (index + 1) ++ " covers branches " ++
            debugBranches keyBranches ++ " while the first covers " ++ debugBranches known ++
            "; every key in one descriptor shares them"))
    else .ok { read with keys := read.keys ++ [key] }

def readKey {κ : Type} (bip32 : Bip32 κ) (read : KeysRead) (entry : List Char × Nat) :
    Except CliError KeysRead := do
  let parsed ← parseDescriptorKey bip32 (trimChars entry.1) entry.2
  read.add entry.2 parsed.1 parsed.2

def repeatsKey (keys : List DescriptorKey) : Bool :=
  let seen :=
    (keys.map DescriptorKey.accountXpub).mergeSort (fun left right => decide (left ≤ right))
  (seen.destutter (fun left right => left ≠ right)).length ≠ seen.length

/- The text before the checksum, and whether there is one. -/
def checkedBody (input : List Char) : Except CliError (List Char × Bool) :=
  match rsplitOnce '#' input with
  | none => .ok (input, false)
  | some (body, checksum) =>
    match descriptorChecksum body with
    | none => .error (.usage "that descriptor contains a character the format does not allow")
    | some expected =>
      if expected ≠ checksum then .error (.usage
            ("that descriptor's checksum does not match: it reads '" ++ String.ofList checksum ++
              "' and should be '" ++ String.ofList expected ++
              "'. One character is wrong somewhere, and loading it anyway would build a different wallet."))
      else .ok (body, true)

/- Only scripts that are hashed, never witness scripts. -/
def stripSh (body : List Char) : Except CliError (List Char) :=
  match stripAround "sh(".toList [')'] body with
  | some inner => .ok inner
  | none =>
    if "wsh(".toList.isPrefixOf body || "tr(".toList.isPrefixOf body
    then .error (.usage
          "that is a SegWit or Taproot descriptor. Bitcoin Cash has neither, so this describes a Bitcoin wallet rather than a Bitcoin Cash one.")
    else .error (.usage "only sh(sortedmulti(...)) multisig descriptors can be opened here")

/- Only sorted keys: the others have other addresses. -/
def stripSortedmulti (inner : List Char) : Except CliError (List Char) :=
  match stripAround "sortedmulti(".toList [')'] inner with
  | some args => .ok args
  | none =>
    if "multi(".toList.isPrefixOf inner then .error (.usage
          "that descriptor uses multi(), which keeps the keys in the order written. This wallet builds sortedmulti() addresses (BIP-67), and the two produce different addresses from the same keys -- so it is not the same wallet.")
    else .error (.usage "only sh(sortedmulti(...)) multisig descriptors can be opened here")

/- What the threshold and the keys of a descriptor have to satisfy together. -/
def checkPolicy (required : UInt8) (keys : List DescriptorKey) : Except CliError Unit :=
  if keys.length < 2 then .error (.usage "a multisig descriptor needs at least two cosigners")
  else if maxCosigners < keys.length then .error
      (.usage ("that descriptor has " ++ toString keys.length ++
          " cosigners; a script can encode at most 16"))
  else if required = 0 ∨ keys.length < required.toNat then .error
      (.usage ("threshold " ++ toString required ++ " is outside 1..=" ++ toString keys.length))
  else if repeatsKey keys = true then
    .error (.usage "that descriptor lists the same key twice; each cosigner needs a distinct one")
  else .ok ()

def parseDescriptor {κ : Type} (bip32 : Bip32 κ) (input : String) :
    Except CliError ParsedDescriptor :=
  let input := Text.trim input
  if input.toList = [] then .error (.usage "no descriptor was given")
  else if maxDescriptorLen < input.utf8ByteSize then .error
      (.usage ("that descriptor is " ++ toString input.utf8ByteSize ++
          " characters; the longest accepted is 10000"))
  else do
    let checked ← checkedBody input.toList
    let inner ← stripSh checked.1
    let args ← stripSortedmulti inner
    -- Splitting leaves at least one part.
    let parts := args.splitOn ','
    let threshold := trimChars (parts.headD [])
    let required ← orUsage (parseUnsigned (2 ^ 8) threshold)
        ("'" ++ String.ofList threshold ++ "' is not a threshold this can read")
    let read ← parts.tail.zipIdx.foldlM (readKey bip32) { keys := [], branches := none }
    checkPolicy (UInt8.ofNat required) read.keys
    .ok
      { required := UInt8.ofNat required
        keys := read.keys
        branches := read.branches.getD [0]
        checksumVerified := checked.2 }

/- A descriptor carries no names. -/
def ParsedDescriptor.cosigners (parsed : ParsedDescriptor) : List Cosigner :=
  parsed.keys.zipIdx.map
    (fun entry =>
      { name := "Cosigner " ++ toString (entry.2 + 1)
        accountXpub := entry.1.accountXpub
        masterFingerprint := some entry.1.masterFingerprint })

--- Scripts

open StagedUpdate

theorem keyBytes_injective : Function.Injective keyBytes := by
  intro left right hSame
  unfold keyBytes at hSame
  have hList := (List.map_injective_iff.mpr (fun a b hByte => UInt8.toNat_inj.mp hByte)) hSame
  exact Vector.toList_inj.mp hList

variable {keys others : List (Vector UInt8 33)}

theorem sortPublicKeysBip67_of_perm (hPerm : keys.Perm others) :
    sortPublicKeysBip67 keys = sortPublicKeysBip67 others :=
  KeySort.mergeSort_eq_of_perm hPerm (fun _ _ _ _ hSame => keyBytes_injective hSame)

theorem sharesKey_of_perm (hPerm : keys.Perm others) : sharesKey keys = sharesKey others := by
  unfold sharesKey
  rw [sortPublicKeysBip67_of_perm hPerm]

theorem redeemScript_of_perm (required : UInt8) (hPerm : keys.Perm others) :
    redeemScript required keys = redeemScript required others := by
  have hNil : keys = [] ↔ others = [] := by
    rw [← List.length_eq_zero_iff, hPerm.length_eq, List.length_eq_zero_iff]
  unfold redeemScript
  rw [sortPublicKeysBip67_of_perm hPerm, hPerm.length_eq]
  by_cases hEmpty : keys = []
  · rw [if_pos hEmpty, if_pos (hNil.mp hEmpty)]
  · rw [if_neg hEmpty, if_neg (fun h => hEmpty (hNil.mpr h))]

--- Previews

variable {κ : Type} {bip32 : Bip32 κ} {network : Network} {required : UInt8} {accounts : List κ}

theorem branchAddress_of_perm {others : List κ} (hPerm : accounts.Perm others)
    {branch index : UInt32} {preview : PublicAddressPreview}
    (hPreview : branchAddress bip32 network required accounts branch index = .ok preview) :
    branchAddress bip32 network required others branch index = .ok preview := by
  unfold branchAddress at hPreview ⊢
  rcases bind_eq_ok_iff.mp hPreview with ⟨keys, hKeys, hRest⟩
  rcases exists_mapM_of_perm hPerm (mapError_eq_ok_iff.mp hKeys) with ⟨results, hResults, hSame⟩
  rw [bind_of_ok (mapError_eq_ok_iff.mpr hResults), ← redeemScript_of_perm required hSame]
  exact hRest

theorem toOption_branchAddress_of_perm {others : List κ} (hPerm : accounts.Perm others)
    (branch index : UInt32) :
    (branchAddress bip32 network required accounts branch index).toOption =
      (branchAddress bip32 network required others branch index).toOption :=
  toOption_eq_of_ok_iff (fun _ => ⟨branchAddress_of_perm hPerm, branchAddress_of_perm hPerm.symm⟩)

/- The first receive address and the first change address. -/
def MultisigPreview.addresses (preview : MultisigPreview) :
    PublicAddressPreview × PublicAddressPreview := (preview.receive, preview.change)

/- What a preview shows of the accounts of its cosigners. -/
def previewAddresses (bip32 : Bip32 κ) (network : Network) (required : UInt8) (accounts : List κ) :
    Option (PublicAddressPreview × PublicAddressPreview) :=
  if accounts.length < 2 ∨ maxCosigners < accounts.length ∨
      (required = 0 ∨ accounts.length < required.toNat) ∨
      sharesKey (accounts.map bip32.toBytes) = true
  then none
  else do
    let receive ← (branchAddress bip32 network required accounts 0 0).toOption
    let change ← (branchAddress bip32 network required accounts 1 0).toOption
    some (receive, change)

theorem addresses_multisigPreview {cosigners : List Cosigner}
    (hAccounts : cosigners.mapM (cosignerAccount bip32) = .ok accounts) :
    ((multisigPreview bip32 network required cosigners).toOption.map MultisigPreview.addresses) =
      previewAddresses bip32 network required accounts := by
  have hLength := length_of_mapM hAccounts
  unfold multisigPreview previewAddresses
  rw [hLength]
  by_cases hFew : cosigners.length < 2
  · rw [if_pos hFew, if_pos (Or.inl hFew)]
    rfl
  rw [if_neg hFew]
  by_cases hMany : maxCosigners < cosigners.length
  · rw [if_pos hMany, if_pos (Or.inr (Or.inl hMany))]
    rfl
  rw [if_neg hMany]
  by_cases hThreshold : required = 0 ∨ cosigners.length < required.toNat
  · rw [if_pos hThreshold, if_pos (Or.inr (Or.inr (Or.inl hThreshold)))]
    rfl
  rw [if_neg hThreshold, bind_of_ok (mapError_eq_ok_iff.mpr hAccounts)]
  by_cases hShares : sharesKey (accounts.map bip32.toBytes) = true
  · rw [if_pos hShares, if_pos (Or.inr (Or.inr (Or.inr hShares)))]
    rfl
  rw [if_neg hShares, if_neg, toOption_bind]
  · cases (branchAddress bip32 network required accounts 0 0) with
    | error e => rfl
    | ok receive =>
      cases (branchAddress bip32 network required accounts 1 0) with
      | error e => rfl
      | ok change => rfl
  · rintro (h | h | h | h)
    · exact hFew h
    · exact hMany h
    · exact hThreshold h
    · exact hShares h

theorem previewAddresses_of_perm {others : List κ} (hPerm : accounts.Perm others) :
    previewAddresses bip32 network required accounts =
      previewAddresses bip32 network required others := by
  unfold previewAddresses
  rw [hPerm.length_eq, sharesKey_of_perm (hPerm.map bip32.toBytes),
    toOption_branchAddress_of_perm hPerm 0 0, toOption_branchAddress_of_perm hPerm 1 0]

end OptnWallet.Multisig
