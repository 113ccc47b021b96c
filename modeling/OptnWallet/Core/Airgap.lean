import OptnWallet.Core.Scan.Queries

/-
  Account keys as they are scanned: a fragment of a resource, or the key itself.  The scheme of a
  resource is looked for in the first three bytes, which may end inside a character.

  Main declarations:
    * `Bip32.parseAccountXpub`
    * `Airgap.classifyScannedAccount`
    * `Airgap.scanned_without_panic`
-/

namespace OptnWallet

--- Accounts

def maxXpubLength : Nat := 256

variable {κ : Type}

/- An account has depth three and is hardened. -/
def Bip32.parseAccountXpub (bip32 : Bip32 κ) (raw : String) : Except CliError κ :=
  let trimmed := Text.trim raw
  if trimmed.toList = [] ∨ maxXpubLength < Utf8.size trimmed.toList
  then .error (.usage "enter a valid BCH account xPub")
  else
    match bip32.fromStr trimmed with
    | none => .error (.usage "enter a valid BIP32 public key")
    | some xpub =>
      if bip32.depth xpub ≠ 3 ∨ bip32.isHardened xpub = false
      then .error (.usage "use a hardened BIP44 account xPub at depth 3")
      else .ok xpub

namespace Airgap

open Multisig (parseUnsigned trimChars)
open Scan (orPanic)
open StagedUpdate

--- Payloads

inductive ScannedAccount where
  | xpub (xpub : String)
  | uniformResource (urType : String) (sequence : Option (Nat × Nat))
deriving DecidableEq

def usage {α : Type} (message : String) : Except (Fault CliError) α :=
  .error (.error (.usage message))

/- The first bytes are sliced off whatever they are. -/
def stripPrefixIgnoreAsciiCase (value expected : List Char) :
    Except (Fault CliError) (Option (List Char)) :=
  if Utf8.size expected ≤ Utf8.size value then do
    let head ← orPanic (Utf8.sliceTo (Utf8.size expected) value)
    if Scan.eqIgnoreAsciiCase head expected then
      let rest ← orPanic (Utf8.sliceFrom (Utf8.size expected) value)
      .ok (some rest)
    else .ok none
  else .ok none

/- `2-5`, in words of 32 bits. -/
def parseSequence (segment : List Char) : Option (Nat × Nat) := do
  let parts ← Cashaddr.splitOnce '-' segment
  let index ← parseUnsigned (2 ^ 32) parts.1
  let total ← parseUnsigned (2 ^ 32) parts.2
  if index = 0 ∨ total = 0 ∨ total < index then none
  else some (index, total)

/- The type is what is before the first slash. -/
def uniformResource (rest : List Char) : Except (Fault CliError) ScannedAccount :=
  let parts := rest.splitOn '/'
  let urType := (trimChars (parts.headD [])).map Char.toLower
  if urType = [] then usage "that QR is not a complete UR code"
  else .ok (.uniformResource (String.ofList urType) (parts[1]?.bind parseSequence))

def classifyScannedAccount (bip32 : Bip32 κ) (payload : String) :
    Except (Fault CliError) ScannedAccount := do
  let trimmed := Text.trim payload
  if trimmed.toList = [] then usage "that QR code was empty"
  else
    match ← stripPrefixIgnoreAsciiCase trimmed.toList "ur:".toList
    with
    | some rest => uniformResource rest
    | none =>
      match bip32.parseAccountXpub trimmed with
      | .error e => .error (.error e)
      | .ok _ => .ok (.xpub trimmed)

--- The First Three Bytes

/- A text of at least three bytes whose third byte is not the last one of a character. -/
def CutAtThree (trimmed : List Char) : Prop :=
  3 ≤ Utf8.size trimmed ∧ Utf8.isBoundary 3 trimmed = false

theorem stripPrefix_panic_iff (trimmed : List Char) :
    stripPrefixIgnoreAsciiCase trimmed "ur:".toList = .error .panic ↔ CutAtThree trimmed := by
  have hSize : Utf8.size "ur:".toList = 3 := by decide
  unfold stripPrefixIgnoreAsciiCase CutAtThree
  rw [hSize]
  by_cases hLong : 3 ≤ Utf8.size trimmed
  · rw [if_pos hLong]
    cases hBoundary : Utf8.isBoundary 3 trimmed with
    | false =>
      rw [← Utf8.isSome_sliceTo, Option.isSome_eq_false_iff, Option.isNone_iff_eq_none] at hBoundary
      rw [hBoundary]
      exact ⟨fun _ => ⟨hLong, rfl⟩, fun _ => rfl⟩
    | true =>
      have hBehind := hBoundary
      rw [← Utf8.isSome_sliceTo, Option.isSome_iff_exists] at hBoundary
      rw [← Utf8.isSome_sliceFrom, Option.isSome_iff_exists] at hBehind
      rcases hBoundary with ⟨head, hHead⟩
      rcases hBehind with ⟨rest, hRest⟩
      rw [bind_of_ok (Scan.orPanic_of_some hHead), hRest]
      constructor
      · intro hPanic
        split at hPanic
        · cases hPanic
        · cases hPanic
      · rintro ⟨-, hInside⟩
        cases hInside
  · simp [hLong]

theorem uniformResource_ne_panic (rest : List Char) : uniformResource rest ≠ .error .panic := by
  unfold uniformResource usage
  dsimp only
  split
  · intro hPanic
    cases hPanic
  · intro hPanic
    cases hPanic

theorem classifyScannedAccount_panic_iff (bip32 : Bip32 κ) (payload : String) :
    classifyScannedAccount bip32 payload = .error .panic ↔
    CutAtThree (Text.trim payload).toList := by
  rw [← stripPrefix_panic_iff]
  unfold classifyScannedAccount
  dsimp only
  generalize Text.trim payload = trimmed
  by_cases hEmpty : trimmed.toList = []
  · rw [if_pos hEmpty, hEmpty]
    unfold usage
    decide
  rw [if_neg hEmpty]
  cases hStrip : stripPrefixIgnoreAsciiCase trimmed.toList "ur:".toList with
  | error fault =>
    constructor
    · intro hPanic
      cases hPanic
      rfl
    · intro hPanic
      cases hPanic
      rfl
  | ok stripped =>
    rw [bind_of_ok rfl]
    refine ⟨fun hPanic => ?_, fun hPanic => by cases hPanic⟩
    cases stripped with
    | some rest => exact absurd hPanic (uniformResource_ne_panic rest)
    | none =>
      dsimp only at hPanic
      split at hPanic
      · cases hPanic
      · cases hPanic

/-
  A payload is classified without a panic exactly where it is not read as an address with a torn
  query, and an account exactly where its first three bytes end between characters.
-/
theorem scanned_without_panic (sha256 : List UInt8 → Vector UInt8 32) (tables : UnicodeTables)
    (bip32 : Bip32 κ) (input : String) (network : Network) :
    (Returns (Scan.classifyScannedPayload sha256 tables input network) ↔
        ¬ (Scan.ReadAsAddress sha256 (Text.trim input) ∧
            Scan.Payable tables network (Scan.splitQuery (Text.trim input).toList).1 ∧
            Scan.TornQuery (Scan.splitQuery (Text.trim input).toList).2)) ∧
    (classifyScannedAccount bip32 input ≠ .error .panic ↔ ¬ CutAtThree (Text.trim input).toList) :=
  ⟨Scan.classifyScannedPayload_returns_iff sha256 tables input network,
    not_congr (classifyScannedAccount_panic_iff bip32 input)⟩

def keylessBip32 : Bip32 Unit :=
  { fromStr := fun _ => none
    depth := fun _ => 0
    isHardened := fun _ => false
    childNumber := fun _ _ => .error ""
    deriveChild := fun _ _ => .error ""
    toBytes := fun _ => Vector.replicate 33 0
    hash160 := fun _ => Vector.replicate 20 0 }

/- A percent sign before a character of three bytes, and two letters before one. -/
theorem torn_payloads_panic :
    Scan.classifyScannedPayload (fun _ => Vector.replicate 32 0) Address.caselessTables "x?label=%€"
        .mainnet = .error .panic ∧
    classifyScannedAccount keylessBip32 "ab€" = .error .panic := by
  decide +kernel

end Airgap

end OptnWallet
