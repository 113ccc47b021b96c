import Mathlib.Data.List.FinRange
import OptnWallet.Core.Network
import OptnWallet.Core.Varint
import OptnWallet.Library.Words

/-
  Addresses, the accounts whose public keys they are derived from, and the address book of a
  scanned account.  Its paths are walked in order, and until a full gap of unused addresses, or a
  cap that is no answer.

  Main declarations:
    * `GapScan.observe`, `GapScan.stop` and `GapScan.stop_eq`
    * `Address.scriptPubkey`
    * `HdAddressBook`
    * `HdAddressAllocation.observe` and `HdAddressAllocation.allocate`
    * `WalletCodecs`
-/

--- Gap Scans

namespace OptnWallet

/- How many unused addresses in a row end a scan. -/
def gapLimit : UInt32 := 20

/- Why the scan of a path stopped. -/
inductive ScanStop where
  | gapReached
  | capReached
deriving DecidableEq

structure GapScan where
  examined : UInt32
  used : UInt32
  consecutiveUnused : UInt32
  gapLimit : UInt32
  cap : UInt32
deriving DecidableEq

namespace GapScan

def withLimits (gapLimit cap : UInt32) : GapScan :=
  { examined := 0, used := 0, consecutiveUnused := 0, gapLimit, cap }

/- The gap is checked first: a scan that completes its gap as it reaches the cap has answered. -/
def stop (scan : GapScan) : Option ScanStop :=
  if scan.gapLimit ≤ scan.consecutiveUnused then some .gapReached
  else if scan.cap ≤ scan.examined then some .capReached
  else none

/- Record one address, and say whether to stop. -/
def observe (scan : GapScan) (addressWasUsed : Bool) : GapScan × Option ScanStop :=
  let examined := Word32.saturatingAdd scan.examined 1
  let scan :=
    if addressWasUsed then
      { scan with examined, used := Word32.saturatingAdd scan.used 1, consecutiveUnused := 0 }
    else { scan with examined, consecutiveUnused := Word32.saturatingAdd scan.consecutiveUnused 1 }
  (scan, scan.stop)

--- Observed Addresses

/- The index of the last used address, if there is one. -/
def LastUsed (flags : List Bool) : Option Nat → Prop
  | none => ∀ flag ∈ flags, flag = false
  | some last =>
    flags[last]? = some true ∧ ∀ i flag, last < i → flags[i]? = some flag → flag = false

/- How many addresses come after the last used one. -/
def unusedTail (flags : List Bool) : Option Nat → Nat
  | none => flags.length
  | some last => flags.length - (last + 1)

/- A scan with these limits that recorded these addresses. -/
structure Observed (gapLimit cap : UInt32) (flags : List Bool) (scan : GapScan)
    (last : Option Nat) : Prop where
  gapLimit : scan.gapLimit = gapLimit
  cap : scan.cap = cap
  examined : scan.examined.toNat = flags.length
  lastUsed : LastUsed flags last
  unused : scan.consecutiveUnused.toNat = unusedTail flags last

theorem observed_withLimits (gapLimit cap : UInt32) :
    Observed gapLimit cap [] (withLimits gapLimit cap) none := by
  refine ⟨rfl, rfl, rfl, ?_, rfl⟩
  intro flag hFlag
  cases hFlag

theorem lastUsed_append_true (flags : List Bool) :
    LastUsed (flags ++ [true]) (some flags.length) := by
  constructor
  · exact List.getElem?_concat_length
  · intro i flag hAfter hFlag
    have hLength := (List.getElem?_eq_some_iff.mp hFlag).1
    rw [List.length_append, List.length_singleton] at hLength
    omega

variable {flags : List Bool} {last : Option Nat}

theorem LastUsed.append_false (hLast : LastUsed flags last) : LastUsed (flags ++ [false]) last := by
  cases last with
  | none =>
    intro flag hFlag
    rcases List.mem_append.mp hFlag with hOld | hNew
    · exact hLast flag hOld
    · exact List.mem_singleton.mp hNew
  | some last =>
    rcases hLast with ⟨hUsed, hAfter⟩
    have hLength := (List.getElem?_eq_some_iff.mp hUsed).1
    constructor
    · rw [List.getElem?_append_left hLength]
      exact hUsed
    · intro i flag hLater hFlag
      rw [List.getElem?_append] at hFlag
      split at hFlag
      · exact hAfter i flag hLater hFlag
      · have hMem := List.mem_of_getElem? hFlag
        exact List.mem_singleton.mp hMem

theorem LastUsed.lt {last : Nat} (hLast : LastUsed flags (some last)) : last < flags.length :=
  (List.getElem?_eq_some_iff.mp hLast.1).1

/- One more address. -/
theorem Observed.observe {gapLimit cap : UInt32} {scan : GapScan}
    (hObserved : Observed gapLimit cap flags scan last)
    (hLength : flags.length + 1 < 2 ^ 32) (flag : Bool) :
    Observed gapLimit cap (flags ++ [flag]) (scan.observe flag).1
      (if flag then some flags.length else last) := by
  have hOne : (1 : UInt32).toNat = 1 := rfl
  have hExamined : (Word32.saturatingAdd scan.examined 1).toNat = (flags ++ [flag]).length := by
    rw [Word32.toNat_saturatingAdd, hObserved.examined, hOne, List.length_append,
      List.length_singleton]
    omega
  cases flag with
  | true =>
    refine ⟨hObserved.gapLimit, hObserved.cap, hExamined, lastUsed_append_true flags, ?_⟩
    simp [GapScan.observe, unusedTail]
  | false =>
    refine ⟨hObserved.gapLimit, hObserved.cap, hExamined, hObserved.lastUsed.append_false, ?_⟩
    change (Word32.saturatingAdd scan.consecutiveUnused 1).toNat = _
    rw [Word32.toNat_saturatingAdd, hObserved.unused, hOne]
    have hLast := hObserved.lastUsed
    cases last with
    | none =>
      simp only
        [unusedTail, List.length_append, List.length_singleton, Bool.false_eq_true, if_false]
      omega
    | some last =>
      have hLt := hLast.lt
      simp only
        [unusedTail, List.length_append, List.length_singleton, Bool.false_eq_true, if_false]
      omega

/- What a scan answers, by the addresses it recorded. -/
theorem Observed.stop_eq {gapLimit cap : UInt32} {scan : GapScan}
    (hObserved : Observed gapLimit cap flags scan last) :
    scan.stop =
      if gapLimit.toNat ≤ unusedTail flags last then some .gapReached
      else if cap.toNat ≤ flags.length then some .capReached
      else none := by
  unfold GapScan.stop
  simp only [UInt32.le_iff_toNat_le, hObserved.gapLimit, hObserved.cap, hObserved.examined,
    hObserved.unused]

end GapScan

--- Addresses

inductive AddressKind where
  | p2pkh
  | p2sh
  | p2pkhToken
  | p2shToken
deriving DecidableEq

structure Address where
  kind : AddressKind
  hash : Vector UInt8 20
  addressPrefix : String
deriving DecidableEq

/- Plain and token-aware addresses lock to one script. -/
def Address.scriptPubkey (address : Address) : List UInt8 :=
  match address.kind with
  | .p2pkh | .p2pkhToken => [0x76, 0xa9, 0x14] ++ address.hash.toList ++ [0x88, 0xac]
  | .p2sh | .p2shToken => [0xa9, 0x14] ++ address.hash.toList ++ [0x87]

--- Accounts

structure AccountPath where
  coinType : UInt32
  account : UInt32
deriving DecidableEq

def AccountPath.toString (path : AccountPath) : String :=
  "m/44'/" ++ ToString.toString path.coinType ++ "'/" ++ ToString.toString path.account ++ "'"

structure PublicAddressPreview where
  path : String
  address : String
  tokenAddress : String
deriving DecidableEq

def maxHdAddressesPerBranch : UInt32 := 10000

/- Receive, change, DeFi and the compatibility branch. -/
def hdScanBranches : Vector UInt32 4 := #v[0, 1, 7, 2]

/- The addresses of each branch, in the order of their indexes. -/
structure HdAddressBook where
  account : AccountPath
  accountXpub : String
  branches : Vector (List PublicAddressPreview) 4
  lastUsed : Vector (Option UInt32) 4
deriving DecidableEq

/- The last used index of each branch that allocates.  The compatibility branch never does. -/
def HdAddressBook.allocationLastUsed (book : HdAddressBook) : Vector (Option UInt32) 3 :=
  #v[book.lastUsed[0], book.lastUsed[1], book.lastUsed[2]]

--- Allocation

inductive HdBranch where
  | receive
  | change
  | defi
deriving DecidableEq

def HdBranch.slot : HdBranch → Fin 3
  | receive => 0
  | change => 1
  | defi => 2

/- The next index of each branch, issued or not. -/
structure HdAddressAllocation where
  next : Vector UInt32 3
  currentReceive : Option UInt32
deriving DecidableEq

namespace HdAddressAllocation

variable (allocation : HdAddressAllocation)

/- The counters past observed history, never lower. -/
def observedNext (lastUsed : Vector (Option UInt32) 3) : Except CliError (Vector UInt32 3) :=
  if (List.finRange 3).any
      (fun slot => (lastUsed.get slot).any (fun used => maxHdAddressesPerBranch ≤ used))
  then .error (.usage "observed HD address index exceeds the branch limit")
  else .ok (Vector.ofFn
        (fun slot :
          Fin 3 =>
            ((lastUsed.get slot).map (fun used => max (allocation.next.get slot) (used + 1))).getD
            (allocation.next.get slot)))

def observe (lastUsed : Vector (Option UInt32) 3) : Except CliError HdAddressAllocation := do
  let next ← allocation.observedNext lastUsed
  .ok { allocation with next }

/- Reserve the next index.  The gap of unused receive addresses is only passed when that is
   acknowledged. -/
def allocate (branch : HdBranch) (lastUsed : Vector (Option UInt32) 3) (acknowledgeGap : Bool) :
    Except CliError (HdAddressAllocation × UInt32) := do
  let next ← allocation.observedNext lastUsed
  let slot := branch.slot
  let index := next.get slot
  let firstUnused := ((lastUsed.get slot).map (fun used => used + 1)).getD 0
  if maxHdAddressesPerBranch ≤ index then .error (.usage "HD address branch is exhausted")
  else if branch = .receive ∧ acknowledgeGap = false ∧ firstUnused + gapLimit ≤ index
  then
    .error
      (.usage
        "HD allocation exceeds the BIP44 recovery gap of 20 unused addresses; explicitly acknowledge the recovery gap to continue")
  else
    .ok
      ({ next := next.set slot (index + 1)
         currentReceive :=
           if branch = .receive then some index
           else allocation.currentReceive },
        index)

end HdAddressAllocation

--- Codecs

/-
  The digest, the text forms of addresses and paths, and the derivation of public keys.  The
  wallet's state is moved around them and never looks inside.
-/
structure WalletCodecs where
  sha256 : List UInt8 → Vector UInt8 32
  decodeAddress : String → Except String Address
  encodeAddress : Address → String
  parseAccountPath : String → Except CliError AccountPath
  accountChildNumber : String → Except CliError UInt32
  addressUnderAccount : Network → String → UInt32 → UInt32 → Except CliError PublicAddressPreview

end OptnWallet
