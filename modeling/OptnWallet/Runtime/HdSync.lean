import Mathlib.Data.Finset.Erase
import Mathlib.Data.List.Sort
import OptnWallet.Library.Runs
import OptnWallet.Runtime.SyncWorker

/-
  Discovery of an account: addresses of four branches are derived from public keys and watched,
  and a branch grows until it ends in a gap of addresses nobody has paid.  A scan ends, and it is
  complete only where every branch that it watches ends in such a gap.

  Main declarations:
    * `HdAccountScan`
    * `HdAccountScan.new` and `HdAccountScan.restoreHorizons`
    * `HdAccountScan.advance`
    * `Sound`, `UnusedGap` and `advance_spec`
    * `scan_is_bounded_and_complete`
-/

--- Limits

namespace OptnWallet

structure HdSyncLimits where
  gapLimit : UInt32
  addressesPerBranch : UInt32
deriving DecidableEq

def HdSyncLimits.validate (limits : HdSyncLimits) : Except String Unit :=
  if limits.gapLimit = 0 ∨ limits.addressesPerBranch < limits.gapLimit ∨
      maxHdAddressesPerBranch < limits.addressesPerBranch
  then .error "HD scan requires a nonzero gap and a per-branch cap between the gap and 10000"
  else .ok ()

--- Scans

/- A call returns an error, or it panics. -/
inductive ScanFailure where
  | error (message : String)
  | panic
deriving DecidableEq

structure HdAccountScan where
  network : Network
  xpub : String
  account : AccountPath
  limits : HdSyncLimits
  derived : Vector (List PublicAddressPreview) 4
  horizon : Vector Nat 4
  minimum : Vector Nat 4
  lastUsed : Vector (Option UInt32) 4
deriving DecidableEq

namespace HdAccountScan

/- The most addresses that a branch may hold. -/
def cap (scan : HdAccountScan) : Nat := scan.limits.addressesPerBranch.toNat

/- The addresses of a branch that are watched. -/
def scanned (scan : HdAccountScan) (branch : Fin 4) : List PublicAddressPreview :=
  scan.derived[branch].take scan.horizon[branch]

/- Some branch is watched beyond what is derived of it. -/
def isShort (scan : HdAccountScan) : Bool :=
  (List.finRange 4).any (fun branch => decide (scan.derived[branch].length < scan.horizon[branch]))

variable (codecs : WalletCodecs)

/- Derive `count` more addresses.  What was derived stays where a derivation fails. -/
def deriveMore (branch : Fin 4) : Nat → HdAccountScan → HdAccountScan × Except ScanFailure Unit
  | 0, scan => (scan, .ok ())
  | count + 1, scan =>
    let index := scan.derived[branch].length
    match codecs.addressUnderAccount scan.network scan.xpub hdScanBranches[branch]
        (UInt32.ofNat index) with
    | .error error => (scan, .error (.error error.toString))
    | .ok address =>
      let path :=
        scan.account.toString ++ "/" ++ toString hdScanBranches[branch] ++ "/" ++ toString index
      deriveMore branch count
        { scan with
          derived := scan.derived.set branch (scan.derived[branch] ++ [{ address with path }]) }

section

variable (scan : HdAccountScan)

def deriveThrough (branch : Fin 4) (count : Nat) : HdAccountScan × Except ScanFailure Unit :=
  deriveMore codecs branch (count - scan.derived[branch].length) scan

def addresses : Except ScanFailure (List String) :=
  if scan.isShort then .error .panic
  else .ok ((List.finRange 4).flatMap
        (fun branch => (scan.scanned branch).map PublicAddressPreview.address))

/- The scripts of the watched addresses, each once. -/
def interests : Except ScanFailure (List WalletInterest) := do
  let addresses ← scan.addresses
  let scripts ← addresses.mapM
      (fun address =>
        match codecs.decodeAddress address with
        | .ok parsed => .ok parsed.scriptPubkey
        | .error _ => .error .panic)
  .ok ((scripts.insertionSort (fun a b => a ≤ b)).eraseReps.map WalletInterest.script)

def addressBook : Except ScanFailure HdAddressBook :=
  if scan.isShort then .error .panic
  else .ok
      { account := scan.account
        accountXpub := scan.xpub
        branches := Vector.ofFn scan.scanned
        lastUsed := scan.lastUsed }

end

--- Construction

/- A required script that is found leaves the requirements and the branch is watched up to it. -/
def locateScript (index : Nat) (state : HdAccountScan × Finset (List UInt8)) (branch : Fin 4) :
    Except ScanFailure (HdAccountScan × Finset (List UInt8)) := do
  let (scan, derivation) := state.1.deriveThrough codecs branch (index + 1)
  derivation
  match scan.derived[branch][index]? with
  | none => .error .panic
  | some address =>
    match codecs.decodeAddress address.address with
    | .error message => .error (.error message)
    | .ok parsed =>
      if parsed.scriptPubkey ∈ state.2 then
        let minimum := max scan.minimum[branch] (index + 1)
        .ok ({ scan with
              minimum := scan.minimum.set branch minimum
              horizon := scan.horizon.set branch minimum },
            state.2.erase parsed.scriptPubkey)
      else .ok (scan, state.2)

/- The indexes from `index` on, as many as are left. -/
def locateRetained (gap : Nat) :
    Nat → Nat → HdAccountScan × Finset (List UInt8) → Except ScanFailure HdAccountScan
  | 0, _, _ => .error (.error "retained wallet scripts are outside this HD account or scan cap")
  | left + 1, index, state => do
      let state ← (List.finRange 4).foldlM (locateScript codecs index) state
      if state.2 = ∅ ∧ gap ≤ index + 1 then .ok state.1
      else locateRetained gap left (index + 1) state

def new (network : Network) (xpub : String) (account : AccountPath) (limits : HdSyncLimits)
    (required : Finset (List UInt8)) : Except ScanFailure HdAccountScan := do
  limits.validate.mapError ScanFailure.error
  let childNumber ←
    (codecs.accountChildNumber xpub).mapError (fun error => ScanFailure.error error.toString)
  if childNumber &&& 0x7fffffff ≠ account.account then
    .error (.error "account xPub index differs from the selected account path")
  else
    let gap := limits.gapLimit.toNat
    locateRetained codecs gap limits.addressesPerBranch.toNat 0
      ({ network
         xpub
         account
         limits
         derived := Vector.replicate 4 []
         horizon := Vector.replicate 4 gap
         minimum := Vector.replicate 4 gap
         lastUsed := Vector.replicate 4 none },
        required)

/- Each branch is watched exactly as far as it was. -/
def restoreBranches (counts : Vector UInt32 4) :
    List (Fin 4) → HdAccountScan → HdAccountScan × Except ScanFailure Unit
  | [], scan => (scan, .ok ())
  | branch :: rest, scan =>
    let count := counts[branch].toNat
    match scan.deriveThrough codecs branch count with
    | (scan, .error failure) => (scan, .error failure)
    | (scan, .ok ()) => restoreBranches counts rest
        { scan with
          horizon := scan.horizon.set branch count
          minimum := scan.minimum.set branch count }

/- Only the DeFi branch may be left unscanned. -/
def restoreHorizons (scan : HdAccountScan) (counts : Vector UInt32 4) :
    HdAccountScan × Except ScanFailure Unit :=
  if (List.finRange 4).any
      (fun branch => (counts[branch] = 0 ∧ hdScanBranches[branch] ≠ 7) ∨
          scan.limits.addressesPerBranch < counts[branch])
  then (scan, .error (.error "invalid stored HD branch length"))
  else
    match restoreBranches codecs counts (List.finRange 4) scan with
    | (scan, .error failure) => (scan, .error failure)
    | (scan, .ok ()) => ({ scan with lastUsed := Vector.replicate 4 none }, .ok ())

--- Rounds

/- Observe addresses in order, from `index` on. -/
def observeAddresses
    (used : Finset (List UInt8)) :
    Nat → GapScan → Option Nat → List PublicAddressPreview →
      Except ScanFailure (GapScan × Option Nat)
  | _, gap, lastUsed, [] => .ok (gap, lastUsed)
  | index, gap, lastUsed, address :: rest =>
    match codecs.decodeAddress address.address with
    | .error message => .error (.error message)
    | .ok parsed =>
      let wasUsed := decide (parsed.scriptPubkey ∈ used)
      observeAddresses used (index + 1) (gap.observe wasUsed).1
        (if wasUsed then some index else lastUsed) rest

/- Watch a branch a full gap beyond its last used address, and never less than before. -/
def extend (scan : HdAccountScan) (branch : Fin 4) (lastUsed : Option Nat) :
    HdAccountScan × Except ScanFailure Bool :=
  let required := (lastUsed.map (fun index => index + 1)).getD 0 + scan.limits.gapLimit.toNat
  let horizon := min (max required scan.minimum[branch]) scan.cap
  let scan := { scan with horizon := scan.horizon.set branch horizon }
  match scan.deriveThrough codecs branch horizon with
  | (scan, .error failure) => (scan, .error failure)
  | (scan, .ok ()) => (scan, .ok false)

/- Whether a branch ends in a gap.  One that does not is watched further, unless it is at its cap.
   -/
def advanceBranch (used : Finset (List UInt8)) (scan : HdAccountScan) (branch : Fin 4) :
    HdAccountScan × Except ScanFailure Bool :=
  if scan.horizon[branch] = 0 then (scan, .ok true)
  else
    match observeAddresses codecs used 0
        (GapScan.withLimits scan.limits.gapLimit scan.limits.addressesPerBranch) none
        (scan.scanned branch) with
    | .error failure => (scan, .error failure)
    | .ok (gap, lastUsed) =>
      let scan := { scan with lastUsed := scan.lastUsed.set branch (lastUsed.map UInt32.ofNat) }
      match gap.stop with
      | some .gapReached => (scan, .ok true)
      | some .capReached => (scan,
          .error (.error ("HD branch " ++ toString hdScanBranches[branch] ++
                " reached its scan cap before an unused gap")))
      | none => scan.extend codecs branch lastUsed

def advanceBranches (used : Finset (List UInt8)) :
    List (Fin 4) → HdAccountScan → Bool → HdAccountScan × Except ScanFailure Bool
  | [], scan, complete => (scan, .ok complete)
  | branch :: rest, scan, complete =>
    match advanceBranch codecs used scan branch with
    | (scan, .error failure) => (scan, .error failure)
    | (scan, .ok done) => advanceBranches used rest scan (complete && done)

/- One round: a snapshot of everything that is watched. A branch that is watched nowhere is left
   alone. -/
def advance (scan : HdAccountScan) (snapshot : WalletNetworkSnapshot) :
    HdAccountScan × Except ScanFailure Bool :=
  match scan.interests codecs with
  | .error failure => (scan, .error failure)
  | .ok interests =>
    if snapshot.interests ≠ interests then
      (scan, .error (.error "HD response does not cover the requested script scope"))
    else
      match snapshot.usedScripts codecs.sha256 with
      | .error error => (scan, .error (.error error.toString))
      | .ok used => advanceBranches codecs used (List.finRange 4) scan true

--- Gaps

variable {codecs}

section

variable (codecs : WalletCodecs) (snapshot : WalletNetworkSnapshot)

/- Some transaction of the snapshot pays to the address. -/
def PaidTo (address : PublicAddressPreview) : Prop :=
  ∃ parsed, codecs.decodeAddress address.address = .ok parsed ∧ snapshot.Pays parsed.scriptPubkey

def Unpaid (address : PublicAddressPreview) : Prop :=
  ∃ parsed, codecs.decodeAddress address.address = .ok parsed ∧ ¬ snapshot.Pays parsed.scriptPubkey

/- The addresses end in a gap: behind the last one that was paid to, `gapLimit` or more were not. -/
def UnusedGap (gapLimit : Nat) (addresses : List PublicAddressPreview) : Option Nat → Prop
  | none => gapLimit ≤ addresses.length ∧ ∀ address ∈ addresses, Unpaid codecs snapshot address
  | some last => last + 1 + gapLimit ≤ addresses.length ∧
      (∃ address, addresses[last]? = some address ∧ PaidTo codecs snapshot address) ∧
      ∀ i address, last < i → addresses[i]? = some address → Unpaid codecs snapshot address

end

/- Whether each address was paid to. -/
def Flags (codecs : WalletCodecs) (used : Finset (List UInt8))
    (addresses : List PublicAddressPreview) (flags : List Bool) : Prop :=
  List.Forall₂
    (fun (address : PublicAddressPreview) flag => ∃ parsed,
        codecs.decodeAddress address.address = .ok parsed ∧
          flag = decide (parsed.scriptPubkey ∈ used)) addresses flags

variable {used : Finset (List UInt8)} {flags : List Bool} {last : Option Nat}
variable {addresses : List PublicAddressPreview}

/- By induction over the addresses that are left. -/
theorem observeAddresses_ok {gapLimit cap : UInt32} {gap gap' : GapScan} {last' : Option Nat}
    (hObserved : gap.Observed gapLimit cap flags last)
    (hLength : flags.length + addresses.length < 2 ^ 32)
    (hObserve : observeAddresses codecs used flags.length gap last addresses = .ok (gap', last')) :
    ∃ flags',
    Flags codecs used addresses flags' ∧ gap'.Observed gapLimit cap (flags ++ flags') last' := by
  induction addresses generalizing flags gap last with
  | nil =>
    cases hObserve
    refine ⟨[], List.Forall₂.nil, ?_⟩
    rw [List.append_nil]
    exact hObserved
  | cons address rest ih =>
    rw [List.length_cons] at hLength
    unfold observeAddresses at hObserve
    cases hDecode : codecs.decodeAddress address.address with
    | error message =>
      rw [hDecode] at hObserve
      cases hObserve
    | ok parsed =>
      rw [hDecode] at hObserve
      dsimp only at hObserve
      have hNext := hObserved.observe (by omega) (decide (parsed.scriptPubkey ∈ used))
      rw [← List.length_singleton (a := decide (parsed.scriptPubkey ∈ used)),
        ← List.length_append] at hObserve
      rcases ih hNext (by simp; omega) hObserve with ⟨flags', hFlags, hAll⟩
      rw [List.append_assoc] at hAll
      exact ⟨_ :: flags', List.Forall₂.cons ⟨parsed, hDecode, rfl⟩ hFlags, hAll⟩

theorem Flags.getElem? (hFlags : Flags codecs used addresses flags) {i : Nat}
    {address : PublicAddressPreview} (hAddress : addresses[i]? = some address) :
    ∃ parsed,
    codecs.decodeAddress address.address = .ok parsed ∧
      flags[i]? = some (decide (parsed.scriptPubkey ∈ used)) := by
  induction hFlags generalizing i with
  | nil => cases hAddress
  | cons hHere _ ih =>
    cases i with
    | zero =>
      cases hAddress
      rcases hHere with ⟨parsed, hDecode, rfl⟩
      exact ⟨parsed, hDecode, rfl⟩
    | succ i => exact ih hAddress

variable {snapshot : WalletNetworkSnapshot}

/- The gap that a scan found is one of the addresses. -/
theorem unusedGap_of_observed {gapLimit cap : UInt32} {gap : GapScan}
    (hUsed : snapshot.usedScripts codecs.sha256 = .ok used)
    (hFlags : Flags codecs used addresses flags) (hObserved : gap.Observed gapLimit cap flags last)
    (hGap : gapLimit.toNat ≤ GapScan.unusedTail flags last) :
    UnusedGap codecs snapshot gapLimit.toNat addresses last := by
  have hLength : addresses.length = flags.length := hFlags.length_eq
  have hUnpaid {i : Nat} {address : PublicAddressPreview} (hAddress : addresses[i]? = some address)
      (hFlag : ∀ flag, flags[i]? = some flag → flag = false) :
      Unpaid codecs snapshot address := by
    rcases hFlags.getElem? hAddress with ⟨parsed, hDecode, hHere⟩
    refine ⟨parsed, hDecode, ?_⟩
    rw [← WalletNetworkSnapshot.mem_usedScripts_iff hUsed]
    exact of_decide_eq_false (hFlag _ hHere)
  have hLast := hObserved.lastUsed
  cases last with
  | none =>
    constructor
    · rw [hLength]
      exact hGap
    · intro address hMem
      rcases List.mem_iff_getElem?.mp hMem with ⟨i, hAddress⟩
      apply hUnpaid hAddress
      intro flag hFlag
      exact hLast flag (List.mem_of_getElem? hFlag)
  | some last =>
    have hLt := hLast.lt
    have hTail : gapLimit.toNat ≤ flags.length - (last + 1) := hGap
    refine ⟨by omega, ?_, ?_⟩
    · rw [← hLength] at hLt
      refine ⟨addresses[last], List.getElem?_eq_getElem hLt, ?_⟩
      rcases hFlags.getElem? (List.getElem?_eq_getElem hLt) with ⟨parsed, hDecode, hHere⟩
      rw [hLast.1] at hHere
      refine ⟨parsed, hDecode, ?_⟩
      rw [← WalletNetworkSnapshot.mem_usedScripts_iff hUsed]
      exact of_decide_eq_true (Option.some_inj.mp hHere).symm
    · intro i address hAfter hAddress
      apply hUnpaid hAddress
      intro flag hFlag
      exact hLast.2 i flag hAfter hFlag

--- Sound Scans

/- The limits are valid, and no branch is watched beyond the cap or less than it must be. -/
structure Sound (scan : HdAccountScan) : Prop where
  gap_pos : 0 < scan.limits.gapLimit.toNat
  gap_le : scan.limits.gapLimit.toNat ≤ scan.cap
  cap_le : scan.cap ≤ 10000
  capped : ∀ branch : Fin 4, scan.horizon[branch] ≤ scan.cap
  retained : ∀ branch : Fin 4, scan.minimum[branch] ≤ scan.horizon[branch]

theorem getElem_set {α : Type} (values : Vector α 4) (branch other : Fin 4) (value : α) :
    (values.set branch value)[other] =
      if other = branch then value else values[other] := by
  rw [Fin.getElem_fin, Fin.getElem_fin, Vector.getElem_set]
  simp only [Fin.ext_iff, eq_comm]

/- Nothing but what one branch holds has changed. -/
structure KeepsOthers (branch : Fin 4) (scan scan' : HdAccountScan) : Prop where
  limits : scan'.limits = scan.limits
  minimum : scan'.minimum = scan.minimum
  horizon : ∀ other : Fin 4, other ≠ branch → scan'.horizon[other] = scan.horizon[other]
  derived : ∀ other : Fin 4, other ≠ branch → scan'.derived[other] = scan.derived[other]
  lastUsed : ∀ other : Fin 4, other ≠ branch → scan'.lastUsed[other] = scan.lastUsed[other]

/- A derivation changes what is derived of its branch. -/
theorem deriveMore_frame (branch : Fin 4) (count : Nat) (scan : HdAccountScan) :
    ∃ derived : Vector (List PublicAddressPreview) 4,
      (deriveMore codecs branch count scan).1 = { scan with derived } ∧
        ∀ other : Fin 4, other ≠ branch → derived[other] = scan.derived[other] := by
  induction count generalizing scan with
  | zero => exact ⟨scan.derived, rfl, fun _ _ => rfl⟩
  | succ count ih =>
    unfold deriveMore
    dsimp only
    split
    · exact ⟨scan.derived, rfl, fun _ _ => rfl⟩
    · rename_i address hAddress
      rcases ih
          { scan with
            derived :=
              scan.derived.set branch
                (scan.derived[branch] ++ [{ address with
                      path :=
                        scan.account.toString ++ "/" ++ toString hdScanBranches[branch] ++
                            "/" ++ toString scan.derived[branch].length }]) }
        with ⟨derived, hDerived, hOthers⟩
      refine ⟨derived, hDerived, ?_⟩
      intro other hOther
      rw [hOthers other hOther]
      dsimp only
      rw [getElem_set, if_neg hOther]

theorem deriveThrough_frame (codecs : WalletCodecs) (scan : HdAccountScan) (branch : Fin 4)
    (count : Nat) :
    ∃ derived : Vector (List PublicAddressPreview) 4,
      (scan.deriveThrough codecs branch count).1 = { scan with derived } ∧ ∀ other : Fin 4,
          other ≠ branch → derived[other] = scan.derived[other] := deriveMore_frame branch _ scan

variable {branch : Fin 4} {scan scan' : HdAccountScan}

theorem KeepsOthers.trans {scan'' : HdAccountScan} (hFirst : KeepsOthers branch scan scan')
    (hSecond : KeepsOthers branch scan' scan'') : KeepsOthers branch scan scan'' := by
  refine ⟨hSecond.limits.trans hFirst.limits, hSecond.minimum.trans hFirst.minimum, ?_, ?_, ?_⟩
  · intro other hOther
    rw [hSecond.horizon other hOther, hFirst.horizon other hOther]
  · intro other hOther
    rw [hSecond.derived other hOther, hFirst.derived other hOther]
  · intro other hOther
    rw [hSecond.lastUsed other hOther, hFirst.lastUsed other hOther]

variable {result : Except ScanFailure Bool}

theorem extend_spec (hExtend : scan.extend codecs branch last = (scan', result)) :
    KeepsOthers branch scan scan' ∧
    scan'.horizon[branch] = min
        (max ((last.map (fun index => index + 1)).getD 0 + scan.limits.gapLimit.toNat)
          scan.minimum[branch]) scan.cap ∧
    result ≠ .ok true := by
  unfold extend at hExtend
  dsimp only at hExtend
  generalize min
    (max ((last.map (fun index => index + 1)).getD 0 + scan.limits.gapLimit.toNat)
      scan.minimum[branch]) scan.cap = horizon at hExtend ⊢
  rcases
      deriveThrough_frame codecs
        { scan with horizon := scan.horizon.set branch horizon }
        branch horizon with
    ⟨derived, hFrame, hOthers⟩
  have hHere : (scan.horizon.set branch horizon)[branch] = horizon := by
    rw [getElem_set, if_pos rfl]
  have hKeeps :
      KeepsOthers branch scan
        { scan with
          horizon := scan.horizon.set branch horizon
          derived } := by
    refine ⟨rfl, rfl, ?_, hOthers, fun _ _ => rfl⟩
    intro other hOther
    dsimp only
    rw [getElem_set, if_neg hOther]
  split at hExtend
  · rename_i scan'' failure hDerive
    cases hExtend
    rw [hDerive] at hFrame
    cases hFrame
    exact ⟨hKeeps, hHere, fun hEq => by cases hEq⟩
  · rename_i scan'' hDerive
    cases hExtend
    rw [hDerive] at hFrame
    cases hFrame
    exact ⟨hKeeps, hHere, fun hEq => by cases hEq⟩

/- Without a gap, more is required than was observed. -/
theorem lt_required {gapLimit : Nat} (hLast : GapScan.LastUsed flags last)
    (hGap : ¬ gapLimit ≤ GapScan.unusedTail flags last) :
    flags.length < (last.map (fun index => index + 1)).getD 0 + gapLimit := by
  cases last with
  | none =>
    have hTail : ¬ gapLimit ≤ flags.length := hGap
    rw [Option.map_none, Option.getD_none]
    omega
  | some last =>
    have hLt := hLast.lt
    have hTail : ¬ gapLimit ≤ flags.length - (last + 1) := hGap
    rw [Option.map_some, Option.getD_some]
    omega

/- What one branch answers: that it ends in a gap, or that it is watched further. -/
def BranchAnswers (codecs : WalletCodecs) (snapshot : WalletNetworkSnapshot) (branch : Fin 4)
    (scan scan' : HdAccountScan) : Except ScanFailure Bool → Prop
  | .ok true => scan'.horizon = scan.horizon ∧ scan'.derived = scan.derived ∧
      (scan.horizon[branch] ≠ 0 →
        UnusedGap codecs snapshot scan.limits.gapLimit.toNat (scan.scanned branch)
          (scan'.lastUsed[branch].map UInt32.toNat))
  | .ok false => scan.horizon[branch] ≠ 0 ∧ scan.horizon[branch] < scan'.horizon[branch]
  | .error _ => True

theorem advanceBranch_spec (hSound : Sound scan)
    (hDerived : scan.horizon[branch] ≤ scan.derived[branch].length)
    (hUsed : snapshot.usedScripts codecs.sha256 = .ok used)
    (hAdvance : advanceBranch codecs used scan branch = (scan', result)) :
    KeepsOthers branch scan scan' ∧
    scan.horizon[branch] ≤ scan'.horizon[branch] ∧
    scan'.horizon[branch] ≤ scan.cap ∧
    BranchAnswers codecs snapshot branch scan scan' result := by
  have hSame : KeepsOthers branch scan scan :=
    ⟨rfl, rfl, fun _ _ => rfl, fun _ _ => rfl, fun _ _ => rfl⟩
  unfold advanceBranch at hAdvance
  by_cases hZero : scan.horizon[branch] = 0
  · rw [if_pos hZero] at hAdvance
    cases hAdvance
    exact
      ⟨hSame, Nat.le_refl _, hSound.capped branch, rfl, rfl, fun hNonzero => absurd hZero hNonzero⟩
  rw [if_neg hZero] at hAdvance
  cases hObserve : observeAddresses codecs used 0
    (GapScan.withLimits scan.limits.gapLimit scan.limits.addressesPerBranch) none
    (scan.scanned branch) with
  | error failure =>
    rw [hObserve] at hAdvance
    cases hAdvance
    exact ⟨hSame, Nat.le_refl _, hSound.capped branch, trivial⟩
  | ok observed =>
    rcases observed with ⟨gap, last⟩
    rw [hObserve] at hAdvance
    dsimp only at hAdvance
    have hCap := hSound.cap_le
    have hCapped := hSound.capped branch
    have hLength : (scan.scanned branch).length = scan.horizon[branch] := by
      unfold scanned
      rw [List.length_take, Nat.min_eq_left hDerived]
    rcases
        observeAddresses_ok (GapScan.observed_withLimits _ _)
          (by rw [hLength, List.length_nil]; omega)
          hObserve with
      ⟨flags, hFlags, hObserved⟩
    rw [List.nil_append] at hObserved
    have hFlagsLength : flags.length = scan.horizon[branch] := by
      rw [← hLength]
      exact hFlags.length_eq.symm
    have hLastUsed :
        KeepsOthers branch scan
          { scan with
            lastUsed := scan.lastUsed.set branch (last.map UInt32.ofNat) } := by
      refine ⟨rfl, rfl, fun _ _ => rfl, fun _ _ => rfl, ?_⟩
      intro other hOther
      dsimp only
      rw [getElem_set, if_neg hOther]
    have hLastWord : (last.map UInt32.ofNat).map UInt32.toNat = last := by
      cases last with
      | none => rfl
      | some last =>
        have hLt := hObserved.lastUsed.lt
        have hSmall : last < 2 ^ 32 := by omega
        have hWord : (UInt32.ofNat last).toNat = last := UInt32.toNat_ofNat_of_lt hSmall
        rw [Option.map_some, Option.map_some, hWord]
    rw [hObserved.stop_eq] at hAdvance
    split at hAdvance
    · -- the branch ends in a gap
      rename_i hStop
      split at hStop
      · rename_i hGap
        cases hAdvance
        refine ⟨hLastUsed, Nat.le_refl _, hCapped, rfl, rfl, ?_⟩
        intro _
        dsimp only
        rw [getElem_set, if_pos rfl, hLastWord]
        exact unusedGap_of_observed hUsed hFlags hObserved hGap
      · split at hStop <;> cases hStop
    · -- it reached its cap before
      cases hAdvance
      exact ⟨hLastUsed, Nat.le_refl _, hCapped, trivial⟩
    · -- it has room to grow
      rename_i hStop
      split at hStop
      · cases hStop
      split at hStop
      · cases hStop
      rename_i hGap hRoom
      have hRequired :
          scan.horizon[branch] <
            (last.map (fun index => index + 1)).getD 0 + scan.limits.gapLimit.toNat := by
        rw [← hFlagsLength]
        exact lt_required hObserved.lastUsed hGap
      have hBelow : scan.horizon[branch] < scan.cap := by
        rw [← hFlagsLength]
        exact Nat.lt_of_not_le hRoom
      rcases extend_spec hAdvance with ⟨hExtended, hHorizon, hResult⟩
      have hGrown : scan.horizon[branch] < scan'.horizon[branch] := by
        rw [hHorizon]
        exact lt_min (lt_of_lt_of_le hRequired (le_max_left _ _)) hBelow
      have hWithin : scan'.horizon[branch] ≤ scan.cap := by
        rw [hHorizon]
        exact min_le_right _ _
      refine ⟨hLastUsed.trans hExtended, Nat.le_of_lt hGrown, hWithin, ?_⟩
      cases result with
      | error failure => trivial
      | ok complete =>
        cases complete with
        | true => exact absurd rfl hResult
        | false => exact ⟨hZero, hGrown⟩


--- Rounds

/- No branch shrinks, and none grows beyond the cap. -/
structure Grows (scan scan' : HdAccountScan) : Prop where
  limits : scan'.limits = scan.limits
  minimum : scan'.minimum = scan.minimum
  horizon : ∀ branch : Fin 4, scan.horizon[branch] ≤ scan'.horizon[branch]
  capped : ∀ branch : Fin 4, scan'.horizon[branch] ≤ scan.cap

theorem Sound.grows_self (hSound : Sound scan) : Grows scan scan :=
  ⟨rfl, rfl, fun _ => Nat.le_refl _, hSound.capped⟩

theorem Grows.cap_eq (hGrows : Grows scan scan') : scan'.cap = scan.cap := by
  unfold cap
  rw [hGrows.limits]

theorem Grows.trans {scan'' : HdAccountScan} (hFirst : Grows scan scan')
    (hSecond : Grows scan' scan'') : Grows scan scan'' := by
  refine ⟨hSecond.limits.trans hFirst.limits, hSecond.minimum.trans hFirst.minimum, ?_, ?_⟩
  · intro branch
    exact Nat.le_trans (hFirst.horizon branch) (hSecond.horizon branch)
  · intro branch
    rw [← hFirst.cap_eq]
    exact hSecond.capped branch

theorem Sound.of_grows (hSound : Sound scan) (hGrows : Grows scan scan') : Sound scan' := by
  constructor
  · rw [hGrows.limits]
    exact hSound.gap_pos
  · rw [hGrows.limits, hGrows.cap_eq]
    exact hSound.gap_le
  · rw [hGrows.cap_eq]
    exact hSound.cap_le
  · intro branch
    rw [hGrows.cap_eq]
    exact hGrows.capped branch
  · intro branch
    rw [hGrows.minimum]
    exact Nat.le_trans (hSound.retained branch) (hGrows.horizon branch)

theorem KeepsOthers.grows (hKeeps : KeepsOthers branch scan scan') (hSound : Sound scan)
    (hGrown : scan.horizon[branch] ≤ scan'.horizon[branch])
    (hCapped : scan'.horizon[branch] ≤ scan.cap) : Grows scan scan' := by
  refine ⟨hKeeps.limits, hKeeps.minimum, ?_, ?_⟩
  · intro other
    by_cases hOther : other = branch
    · rw [hOther]
      exact hGrown
    · exact Nat.le_of_eq (hKeeps.horizon other hOther).symm
  · intro other
    by_cases hOther : other = branch
    · rw [hOther]
      exact hCapped
    · rw [hKeeps.horizon other hOther]
      exact hSound.capped other

theorem KeepsOthers.scanned {other : Fin 4} (hKeeps : KeepsOthers branch scan scan')
    (hOther : other ≠ branch) : scan'.scanned other = scan.scanned other := by
  unfold HdAccountScan.scanned
  rw [hKeeps.derived other hOther, hKeeps.horizon other hOther]

/- What a round over some branches answers. -/
def Answers (codecs : WalletCodecs) (snapshot : WalletNetworkSnapshot) (branches : List (Fin 4))
    (scan scan' : HdAccountScan) : Except ScanFailure Bool → Prop
  | .ok true => scan'.horizon = scan.horizon ∧ scan'.derived = scan.derived ∧
      ∀ branch ∈ branches,
        scan.horizon[branch] ≠ 0 →
          UnusedGap codecs snapshot scan.limits.gapLimit.toNat (scan.scanned branch)
            (scan'.lastUsed[branch].map UInt32.toNat)
  | .ok false =>
    (∃ branch ∈ branches, scan.horizon[branch] ≠ 0 ∧ scan.horizon[branch] < scan'.horizon[branch]) ∧
      ∀ branch ∈ branches,
        scan.horizon[branch] = scan.cap →
          ∃ last, UnusedGap codecs snapshot scan.limits.gapLimit.toNat (scan.scanned branch) last
  | .error _ => True

/- The answer of one branch before that of the others. -/
theorem Answers.cons {snapshot : WalletNetworkSnapshot} {branch : Fin 4} {rest : List (Fin 4)}
    {scan scan₁ scan₂ : HdAccountScan} {done : Bool} {result : Except ScanFailure Bool}
    (hAnswers : Answers codecs snapshot rest scan₁ scan₂ result) (hSound : Sound scan)
    (hKeeps : KeepsOthers branch scan scan₁)
    (hAnswer : BranchAnswers codecs snapshot branch scan scan₁ (.ok done))
    (hGrows : Grows scan₁ scan₂) (hLast : scan₂.lastUsed[branch] = scan₁.lastUsed[branch])
    (hOther : ∀ other ∈ rest, other ≠ branch) :
    Answers codecs snapshot (branch :: rest) scan scan₂
      (result.map (fun complete => done && complete)) := by
  have hScanned {other : Fin 4} (hMem : other ∈ rest) : scan₁.scanned other = scan.scanned other :=
    hKeeps.scanned (hOther other hMem)
  have hHorizon {other : Fin 4} (hMem : other ∈ rest) :
      scan₁.horizon[other] = scan.horizon[other] :=
    hKeeps.horizon other (hOther other hMem)
  have hCap : scan₁.cap = scan.cap := by
    unfold cap
    rw [hKeeps.limits]
  have hScans {other : Fin 4} (hFull : scan.horizon[other] = scan.cap) :
      scan.horizon[other] ≠ 0 := by
    have hPos := hSound.gap_pos
    have hLe := hSound.gap_le
    omega
  cases result with
  | error failure => trivial
  | ok complete =>
  cases done with
  | true =>
    rcases hAnswer with ⟨hSame, hSameDerived, hGap⟩
    cases complete with
    | true =>
      rcases hAnswers with ⟨hSame₂, hSameDerived₂, hGaps⟩
      refine ⟨hSame₂.trans hSame, hSameDerived₂.trans hSameDerived, ?_⟩
      intro other hMem hScan
      rcases List.mem_cons.mp hMem with rfl | hMem
      · rw [hLast]
        exact hGap hScan
      · rw [← hKeeps.limits, ← hScanned hMem]
        rw [← hHorizon hMem] at hScan
        exact hGaps other hMem hScan
    | false =>
      rcases hAnswers with ⟨⟨grown, hMem, hScan, hLess⟩, hFull⟩
      rw [hSame] at hScan hLess
      refine ⟨⟨grown, List.mem_cons_of_mem _ hMem, hScan, hLess⟩, ?_⟩
      intro other hMem hAtCap
      rcases List.mem_cons.mp hMem with rfl | hMem
      · exact ⟨_, hGap (hScans hAtCap)⟩
      · rw [← hKeeps.limits, ← hScanned hMem]
        rw [← hHorizon hMem, ← hCap] at hAtCap
        exact hFull other hMem hAtCap
  | false =>
    rcases hAnswer with ⟨hScan, hLess⟩
    have hGrown := Nat.lt_of_lt_of_le hLess (hGrows.horizon branch)
    refine ⟨⟨branch, List.mem_cons_self .., hScan, hGrown⟩, ?_⟩
    intro other hMem hAtCap
    rcases List.mem_cons.mp hMem with rfl | hMem
    · -- a branch that grew was not at the cap
      have hCapped := hGrows.capped other
      rw [hCap] at hCapped
      omega
    · have hScan' := hScans hAtCap
      rw [← hHorizon hMem] at hScan' hAtCap
      rw [← hCap] at hAtCap
      rw [← hKeeps.limits, ← hScanned hMem]
      cases complete with
      | true => exact ⟨_, hAnswers.2.2 other hMem hScan'⟩
      | false => exact hAnswers.2 other hMem hAtCap

/- A branch that is not complete makes the round so. -/
theorem advanceBranches_and (used : Finset (List UInt8)) (branches : List (Fin 4))
    (scan : HdAccountScan) (first second : Bool) :
    advanceBranches codecs used branches scan (first && second) =
      ((advanceBranches codecs used branches scan second).1,
        (advanceBranches codecs used branches scan second).2.map
          (fun complete => first && complete)) := by
  induction branches generalizing scan second with
  | nil => rfl
  | cons branch rest ih =>
    unfold advanceBranches
    rcases advanceBranch codecs used scan branch with ⟨scan', failure | done⟩
    · rfl
    · dsimp only
      rw [Bool.and_assoc]
      exact ih scan' (second && done)

/- By induction over the branches. -/
theorem advanceBranches_spec {branches : List (Fin 4)} (hNodup : branches.Nodup)
    (hSound : Sound scan)
    (hDerived : ∀ branch ∈ branches, scan.horizon[branch] ≤ scan.derived[branch].length)
    (hUsed : snapshot.usedScripts codecs.sha256 = .ok used)
    (hAdvance : advanceBranches codecs used branches scan true = (scan', result)) :
    Grows scan scan' ∧
    (∀ branch : Fin 4, branch ∉ branches → scan'.lastUsed[branch] = scan.lastUsed[branch]) ∧
    Answers codecs snapshot branches scan scan' result := by
  induction branches generalizing scan scan' result with
  | nil =>
    cases hAdvance
    refine ⟨hSound.grows_self, fun _ _ => rfl, rfl, rfl, ?_⟩
    intro branch hMem
    cases hMem
  | cons branch rest ih =>
    rcases List.nodup_cons.mp hNodup with ⟨hFresh, hRest⟩
    have hOther {other : Fin 4} (hMem : other ∈ rest) : other ≠ branch := by
      intro hEq
      rw [hEq] at hMem
      exact hFresh hMem
    unfold advanceBranches at hAdvance
    cases hHere : advanceBranch codecs used scan branch with
    | mk scan₁ answer =>
    rcases advanceBranch_spec hSound (hDerived branch (List.mem_cons_self ..)) hUsed hHere with
      ⟨hKeeps, hGrown, hCapped, hAnswer⟩
    have hGrows := hKeeps.grows hSound hGrown hCapped
    rw [hHere] at hAdvance
    cases answer with
    | error failure =>
      cases hAdvance
      refine ⟨hGrows, ?_, trivial⟩
      intro other hNot
      apply hKeeps.lastUsed
      intro hEq
      rw [hEq] at hNot
      exact hNot (List.mem_cons_self ..)
    | ok done =>
      dsimp only at hAdvance
      rw [Bool.true_and, ← Bool.and_true done, advanceBranches_and] at hAdvance
      cases hTail : advanceBranches codecs used rest scan₁ true with
      | mk scan₂ result₂ =>
      rw [hTail] at hAdvance
      cases hAdvance
      have hSound₁ := hSound.of_grows hGrows
      have hDerived₁ : ∀ other ∈ rest, scan₁.horizon[other] ≤ scan₁.derived[other].length := by
        intro other hMem
        rw [hKeeps.horizon other (hOther hMem), hKeeps.derived other (hOther hMem)]
        exact hDerived other (List.mem_cons_of_mem _ hMem)
      rcases ih hRest hSound₁ hDerived₁ hTail with ⟨hGrows₂, hLast₂, hAnswers⟩
      refine ⟨hGrows.trans hGrows₂, ?_, ?_⟩
      · intro other hNot
        rw [List.mem_cons, not_or] at hNot
        rw [hLast₂ other hNot.2, hKeeps.lastUsed other hNot.1]
      · exact hAnswers.cons hSound hKeeps hAnswer hGrows₂ (hLast₂ branch hFresh) (fun _ => hOther)

/- What is watched is derived, where it can be listed. -/
theorem horizon_le_of_interests {interests : List WalletInterest}
    (hInterests : scan.interests codecs = .ok interests) (branch : Fin 4) :
    scan.horizon[branch] ≤ scan.derived[branch].length := by
  rcases StagedUpdate.bind_eq_ok_iff.mp hInterests with ⟨addresses, hAddresses, -⟩
  unfold HdAccountScan.addresses at hAddresses
  split at hAddresses
  · cases hAddresses
  · rename_i hLong
    by_contra hShort
    apply hLong
    unfold isShort
    rw [List.any_eq_true]
    exact ⟨branch, List.mem_finRange branch, decide_eq_true (Nat.lt_of_not_le hShort)⟩

/- A round over all branches, whatever the snapshot says. -/
theorem advance_spec (hSound : Sound scan)
    (hAdvance : scan.advance codecs snapshot = (scan', result)) :
    Grows scan scan' ∧ Answers codecs snapshot (List.finRange 4) scan scan' result := by
  unfold advance at hAdvance
  cases hInterests : scan.interests codecs with
  | error failure =>
    rw [hInterests] at hAdvance
    cases hAdvance
    exact ⟨hSound.grows_self, trivial⟩
  | ok interests =>
    rw [hInterests] at hAdvance
    dsimp only at hAdvance
    split at hAdvance
    · cases hAdvance
      exact ⟨hSound.grows_self, trivial⟩
    cases hUsed : snapshot.usedScripts codecs.sha256 with
    | error error =>
      rw [hUsed] at hAdvance
      cases hAdvance
      exact ⟨hSound.grows_self, trivial⟩
    | ok used =>
      rw [hUsed] at hAdvance
      rcases advanceBranches_spec (List.nodup_finRange 4) hSound
        (fun branch _ => horizon_le_of_interests hInterests branch) hUsed hAdvance with
        ⟨hGrows, -, hAnswers⟩
      exact ⟨hGrows, hAnswers⟩

/- The same of what a round returns and leaves behind. -/
theorem advance_answers (codecs : WalletCodecs) (hSound : Sound scan)
    (snapshot : WalletNetworkSnapshot) :
    Grows scan (scan.advance codecs snapshot).1 ∧
    Answers codecs snapshot (List.finRange 4) scan (scan.advance codecs snapshot).1
      (scan.advance codecs snapshot).2 := advance_spec hSound Prod.mk.eta.symm

--- Reachable Scans

theorem restoreBranches_sound {counts : Vector UInt32 4} {branches : List (Fin 4)}
    {result : Except ScanFailure Unit} (hSound : Sound scan)
    (hCounts : ∀ branch : Fin 4, counts[branch].toNat ≤ scan.cap)
    (hRestore : restoreBranches codecs counts branches scan = (scan', result)) :
    Sound scan' ∧ scan'.limits = scan.limits := by
  induction branches generalizing scan with
  | nil =>
    cases hRestore
    exact ⟨hSound, rfl⟩
  | cons branch rest ih =>
    unfold restoreBranches at hRestore
    rcases deriveThrough_frame codecs scan branch counts[branch].toNat with ⟨derived, hFrame, -⟩
    dsimp only at hRestore
    split at hRestore
    · rename_i scan₁ failure hDerive
      rw [hDerive] at hFrame
      cases hFrame
      cases hRestore
      exact ⟨⟨hSound.gap_pos, hSound.gap_le, hSound.cap_le, hSound.capped, hSound.retained⟩, rfl⟩
    · rename_i scan₁ hDerive
      rw [hDerive] at hFrame
      cases hFrame
      apply ih _ _ hRestore
      · refine ⟨hSound.gap_pos, hSound.gap_le, hSound.cap_le, ?_, ?_⟩
        · intro other
          dsimp only
          rw [getElem_set]
          split
          · exact hCounts branch
          · exact hSound.capped other
        · intro other
          dsimp only
          rw [getElem_set, getElem_set]
          split
          · exact Nat.le_refl _
          · exact hSound.retained other
      · exact hCounts

theorem restoreHorizons_sound {counts : Vector UInt32 4} {result : Except ScanFailure Unit}
    (hSound : Sound scan) (hRestore : scan.restoreHorizons codecs counts = (scan', result)) :
    Sound scan' ∧ scan'.limits = scan.limits := by
  unfold restoreHorizons at hRestore
  split at hRestore
  · cases hRestore
    exact ⟨hSound, rfl⟩
  rename_i hValid
  have hCounts (branch : Fin 4) : counts[branch].toNat ≤ scan.cap := by
    by_contra hAbove
    apply hValid
    rw [List.any_eq_true]
    refine ⟨branch, List.mem_finRange branch, ?_⟩
    apply decide_eq_true
    right
    exact UInt32.lt_iff_toNat_lt.mpr (Nat.lt_of_not_le hAbove)
  split at hRestore
  · rename_i scan₁ failure hBranches
    cases hRestore
    exact restoreBranches_sound hSound hCounts hBranches
  · rename_i scan₁ hBranches
    cases hRestore
    rcases restoreBranches_sound hSound hCounts hBranches with ⟨hRestored, hLimits⟩
    exact ⟨⟨hRestored.gap_pos, hRestored.gap_le, hRestored.cap_le, hRestored.capped,
        hRestored.retained⟩, hLimits⟩

/- An index below the cap never takes a branch beyond it. -/
theorem locateScript_sound {index : Nat} {state state' : HdAccountScan × Finset (List UInt8)}
    (hSound : Sound state.1) (hIndex : index < state.1.cap)
    (hLocate : locateScript codecs index state branch = .ok state') :
    Sound state'.1 ∧ state'.1.limits = state.1.limits := by
  unfold locateScript at hLocate
  rcases deriveThrough_frame codecs state.1 branch (index + 1) with ⟨derived, hFrame, -⟩
  cases hDerive : state.1.deriveThrough codecs branch (index + 1) with
  | mk scan derivation =>
  rw [hDerive] at hFrame hLocate
  cases hFrame
  dsimp only at hLocate
  rcases StagedUpdate.bind_eq_ok_iff.mp hLocate with ⟨-, -, hLocate⟩
  have hDerived : Sound { state.1 with derived } :=
    ⟨hSound.gap_pos, hSound.gap_le, hSound.cap_le, hSound.capped, hSound.retained⟩
  split at hLocate
  · cases hLocate
  split at hLocate
  · cases hLocate
  split at hLocate
  · cases hLocate
    refine ⟨⟨hSound.gap_pos, hSound.gap_le, hSound.cap_le, ?_, ?_⟩, rfl⟩
    · intro other
      dsimp only
      rw [getElem_set]
      split
      · apply Nat.max_le.mpr
        constructor
        · exact Nat.le_trans (hSound.retained branch) (hSound.capped branch)
        · exact hIndex
      · exact hSound.capped other
    · intro other
      dsimp only
      rw [getElem_set, getElem_set]
      split
      · exact Nat.le_refl _
      · exact hSound.retained other
  · cases hLocate
    exact ⟨hDerived, rfl⟩

theorem locateRetained_sound {gap left index : Nat} {state : HdAccountScan × Finset (List UInt8)}
    (hSound : Sound state.1) (hIndex : index + left = state.1.cap)
    (hLocate : locateRetained codecs gap left index state = .ok scan) :
    Sound scan ∧ scan.limits = state.1.limits := by
  induction left generalizing index state with
  | zero => cases hLocate
  | succ left ih =>
    unfold locateRetained at hLocate
    rcases StagedUpdate.bind_eq_ok_iff.mp hLocate with ⟨state', hRound, hLocate⟩
    have hKept : Sound state'.1 ∧ state'.1.limits = state.1.limits := by
      apply StagedUpdate.foldlM_keeps _ ⟨hSound, rfl⟩ hRound
      intro found branch found' hFound hStep
      have hCap : found.1.cap = state.1.cap := by
        unfold cap
        rw [hFound.2]
      rcases locateScript_sound hFound.1 (by omega) hStep with ⟨hNext, hLimits⟩
      exact ⟨hNext, hLimits.trans hFound.2⟩
    rcases hKept with ⟨hSound', hLimits⟩
    split at hLocate
    · cases hLocate
      exact ⟨hSound', hLimits⟩
    · have hCap : state'.1.cap = state.1.cap := by
        unfold cap
        rw [hLimits]
      rcases ih hSound' (by omega) hLocate with ⟨hFound, hLimits'⟩
      exact ⟨hFound, hLimits'.trans hLimits⟩

theorem validate_eq_ok_iff (limits : HdSyncLimits) :
    limits.validate = .ok () ↔
    0 < limits.gapLimit.toNat ∧ limits.gapLimit.toNat ≤ limits.addressesPerBranch.toNat ∧
      limits.addressesPerBranch.toNat ≤ 10000 := by
  have hMax : maxHdAddressesPerBranch.toNat = 10000 := rfl
  have hZero : limits.gapLimit = 0 ↔ limits.gapLimit.toNat = 0 := by
    rw [← UInt32.toNat_inj]
    rfl
  unfold HdSyncLimits.validate
  split
  · rename_i hInvalid
    rw [hZero, UInt32.lt_iff_toNat_lt, UInt32.lt_iff_toNat_lt, hMax] at hInvalid
    constructor
    · intro hOk
      cases hOk
    · omega
  · rename_i hValid
    rw [hZero, UInt32.lt_iff_toNat_lt, UInt32.lt_iff_toNat_lt, hMax] at hValid
    constructor
    · omega
    · intro _
      rfl

theorem new_sound {network : Network} {xpub : String} {account : AccountPath}
    {limits : HdSyncLimits} {required : Finset (List UInt8)}
    (hNew : new codecs network xpub account limits required = .ok scan) :
    Sound scan ∧ scan.limits = limits := by
  unfold new at hNew
  rcases StagedUpdate.bind_eq_ok_iff.mp hNew with ⟨⟨⟩, hValid, hNew⟩
  rcases StagedUpdate.bind_eq_ok_iff.mp hNew with ⟨childNumber, -, hNew⟩
  rw [StagedUpdate.mapError_eq_ok_iff, validate_eq_ok_iff] at hValid
  rcases hValid with ⟨hPos, hGap, hCap⟩
  split at hNew
  · cases hNew
  · apply locateRetained_sound _ _ hNew
    · refine ⟨hPos, hGap, hCap, ?_, ?_⟩
      · intro branch
        dsimp only
        rw [Fin.getElem_fin, Vector.getElem_replicate]
        exact hGap
      · intro branch
        exact Nat.le_refl _
    · exact Nat.zero_add _

--- Runs

end HdAccountScan

/- A call on a scan. -/
inductive ScanOp where
  | restoreHorizons (counts : Vector UInt32 4)
  | advance (snapshot : WalletNetworkSnapshot)

namespace HdAccountScan

variable {codecs : WalletCodecs}

/- The scan that a call leaves behind, whatever it returned. -/
def apply (codecs : WalletCodecs) (scan : HdAccountScan) : ScanOp → HdAccountScan
  | .restoreHorizons counts => (scan.restoreHorizons codecs counts).1
  | .advance snapshot => (scan.advance codecs snapshot).1

variable {scan : HdAccountScan}

theorem Sound.apply (codecs : WalletCodecs) (hSound : Sound scan) (op : ScanOp) :
    Sound (scan.apply codecs op) ∧ (scan.apply codecs op).limits = scan.limits := by
  cases op with
  | restoreHorizons counts => exact restoreHorizons_sound hSound Prod.mk.eta.symm
  | advance snapshot =>
    have hGrows := (advance_answers codecs hSound snapshot).1
    exact ⟨hSound.of_grows hGrows, hGrows.limits⟩

/- The calls of a run keep a scan sound under its limits. -/
theorem Sound.run (codecs : WalletCodecs) (hSound : Sound scan) (ops : List ScanOp) :
    Sound (ops.foldl (HdAccountScan.apply codecs) scan) ∧
    (ops.foldl (HdAccountScan.apply codecs) scan).limits = scan.limits := by
  induction ops generalizing scan with
  | nil => exact ⟨hSound, rfl⟩
  | cons op ops ih =>
    rcases hSound.apply codecs op with ⟨hNext, hLimits⟩
    rcases ih hNext with ⟨hLast, hLimits'⟩
    exact ⟨hLast, hLimits'.trans hLimits⟩

/- The rounds that leave a scan open, in a run of rounds. -/
def openRounds (codecs : WalletCodecs) : HdAccountScan → List WalletNetworkSnapshot → Nat
  | _, [] => 0
  | scan, snapshot :: rest => (if (scan.advance codecs snapshot).2 = .ok false then 1
      else 0) +
      openRounds codecs (scan.advance codecs snapshot).1 rest

/- How many addresses are watched. -/
def totalHorizon (scan : HdAccountScan) : Nat :=
  scan.horizon[(0 : Fin 4)] + scan.horizon[(1 : Fin 4)] + scan.horizon[(2 : Fin 4)] +
    scan.horizon[(3 : Fin 4)]

variable {scan' : HdAccountScan}

theorem Grows.totalHorizon_le (hGrows : Grows scan scan') :
    scan.totalHorizon ≤ scan'.totalHorizon := by
  unfold totalHorizon
  have h₀ := hGrows.horizon 0
  have h₁ := hGrows.horizon 1
  have h₂ := hGrows.horizon 2
  have h₃ := hGrows.horizon 3
  omega

theorem Grows.totalHorizon_lt (hGrows : Grows scan scan') {branch : Fin 4}
    (hLess : scan.horizon[branch] < scan'.horizon[branch]) :
    scan.totalHorizon < scan'.totalHorizon := by
  unfold totalHorizon
  have h₀ := hGrows.horizon 0
  have h₁ := hGrows.horizon 1
  have h₂ := hGrows.horizon 2
  have h₃ := hGrows.horizon 3
  have hFour : ∀ branch : Fin 4, branch = 0 ∨ branch = 1 ∨ branch = 2 ∨ branch = 3 := by decide
  rcases hFour branch with rfl | rfl | rfl | rfl <;> omega

theorem Sound.totalHorizon_le (hSound : Sound scan) : scan.totalHorizon ≤ 4 * scan.cap := by
  unfold totalHorizon
  have h₀ := hSound.capped 0
  have h₁ := hSound.capped 1
  have h₂ := hSound.capped 2
  have h₃ := hSound.capped 3
  omega

/-
  Each open round watches one address more, and there is room for so many.  By induction over the
  rounds.
-/
theorem openRounds_le (codecs : WalletCodecs) (hSound : Sound scan)
    (snapshots : List WalletNetworkSnapshot) :
    openRounds codecs scan snapshots + scan.totalHorizon ≤ 4 * scan.cap := by
  induction snapshots generalizing scan with
  | nil =>
    have hTotal := hSound.totalHorizon_le
    unfold openRounds
    omega
  | cons snapshot rest ih =>
    rcases advance_answers codecs hSound snapshot with ⟨hGrows, hAnswers⟩
    have hRest := ih (hSound.of_grows hGrows)
    rw [hGrows.cap_eq] at hRest
    have hLe := hGrows.totalHorizon_le
    unfold openRounds
    split
    · rename_i hOpen
      rw [hOpen] at hAnswers
      rcases hAnswers with ⟨⟨branch, -, -, hLess⟩, -⟩
      have hLt := hGrows.totalHorizon_lt hLess
      omega
    · omega

--- Termination And Completeness

/- What one round promises of a scan and its answer. -/
structure Round (codecs : WalletCodecs) (snapshot : WalletNetworkSnapshot)
    (scan scan' : HdAccountScan) (result : Except ScanFailure Bool) : Prop where
  grows : ∀ branch : Fin 4, scan.horizon[branch] ≤ scan'.horizon[branch]
  isOpen :
    result = .ok false →
    ∃ branch : Fin 4, scan.horizon[branch] ≠ 0 ∧ scan.horizon[branch] < scan'.horizon[branch]
  isComplete :
    result = .ok true →
    ∀ branch : Fin 4,
      scan'.horizon[branch] ≠ 0 → scan'.minimum[branch] ≤ scan'.horizon[branch] ∧
          (scan'.scanned branch).length = scan'.horizon[branch] ∧
          UnusedGap codecs snapshot scan'.limits.gapLimit.toNat (scan'.scanned branch)
            (scan'.lastUsed[branch].map UInt32.toNat)
  isCapped :
    ∀ branch : Fin 4,
    scan.horizon[branch] = scan.cap →
      (∀ last, ¬ UnusedGap codecs snapshot scan.limits.gapLimit.toNat (scan.scanned branch) last) →
      ∃ failure, result = .error failure

/- A branch of a round that succeeds is derived as far as it is watched. -/
theorem horizon_le_of_advance {snapshot : WalletNetworkSnapshot} {complete : Bool}
    (hAdvance : scan.advance codecs snapshot = (scan', .ok complete)) (branch : Fin 4) :
    scan.horizon[branch] ≤ scan.derived[branch].length := by
  unfold advance at hAdvance
  cases hInterests : scan.interests codecs with
  | error failure =>
    rw [hInterests] at hAdvance
    cases hAdvance
  | ok interests => exact horizon_le_of_interests hInterests branch

theorem Sound.round (hSound : Sound scan) (snapshot : WalletNetworkSnapshot) :
    Round codecs snapshot scan (scan.advance codecs snapshot).1
      (scan.advance codecs snapshot).2 := by
  rcases advance_answers codecs hSound snapshot with ⟨hGrows, hAnswers⟩
  have hLast := hSound.of_grows hGrows
  cases hAdvance : scan.advance codecs snapshot with
  | mk scan' result =>
  rw [hAdvance] at hGrows hAnswers hLast
  dsimp only at hGrows hAnswers hLast ⊢
  refine ⟨hGrows.horizon, ?_, ?_, ?_⟩
  · rintro rfl
    rcases hAnswers with ⟨⟨branch, -, hScan, hLess⟩, -⟩
    exact ⟨branch, hScan, hLess⟩
  · rintro rfl branch hScan
    rcases hAnswers with ⟨hHorizon, hDerived, hGaps⟩
    have hScanned : scan'.scanned branch = scan.scanned branch := by
      unfold scanned
      rw [hHorizon, hDerived]
    refine ⟨hLast.retained branch, ?_, ?_⟩
    · unfold scanned
      rw [List.length_take, hHorizon, hDerived]
      exact Nat.min_eq_left (horizon_le_of_advance hAdvance branch)
    · rw [hScanned, hGrows.limits]
      rw [hHorizon] at hScan
      exact hGaps branch (List.mem_finRange branch) hScan
  · intro branch hFull hNone
    cases result with
    | error failure => exact ⟨failure, rfl⟩
    | ok complete =>
      exfalso
      cases complete with
      | true =>
        have hPos := hSound.gap_pos
        have hLe := hSound.gap_le
        apply hNone
        apply hAnswers.2.2 branch (List.mem_finRange branch)
        omega
      | false =>
        rcases hAnswers.2 branch (List.mem_finRange branch) hFull with ⟨last, hGap⟩
        exact hNone last hGap

/-
  However a scan is called and whatever it is told: no branch passes the cap; an open round
  watches more of some branch; a complete one leaves every watched branch with its gap and no
  shorter than it must be; a branch at its cap without a gap is an error; and only so many rounds
  stay open.
-/
theorem scan_is_bounded_and_complete (codecs : WalletCodecs) (network : Network) (xpub : String)
    (account : AccountPath) (limits : HdSyncLimits) (required : Finset (List UInt8))
    (scan : HdAccountScan) (ops : List ScanOp)
    (hNew : new codecs network xpub account limits required = .ok scan) :
    Runs.EachState (apply codecs)
        (fun scan => ∀ branch : Fin 4, scan.horizon[branch] ≤ limits.addressesPerBranch.toNat)
        scan ops ∧
      Runs.EachStep (apply codecs)
        (fun scan op =>
          match op with
          | .restoreHorizons _ => True
          | .advance snapshot => Round codecs snapshot scan (scan.advance codecs snapshot).1
              (scan.advance codecs snapshot).2)
        scan ops ∧
      ∀ snapshots,
        openRounds codecs (ops.foldl (apply codecs) scan) snapshots ≤
          4 * limits.addressesPerBranch.toNat := by
  rcases new_sound hNew with ⟨hSound, rfl⟩
  refine ⟨?_, ?_, ?_⟩
  · intro done rest _ branch
    rcases hSound.run codecs done with ⟨hHere, hLimits⟩
    rw [← hLimits]
    exact hHere.capped branch
  · intro done op rest _
    have hHere := (hSound.run codecs done).1
    cases op with
    | restoreHorizons counts => trivial
    | advance snapshot => exact hHere.round snapshot
  · intro snapshots
    rcases hSound.run codecs ops with ⟨hHere, hLimits⟩
    have hRounds := openRounds_le codecs hHere snapshots
    unfold cap at hRounds
    rw [hLimits] at hRounds
    omega

--- An Account With One Payment

/- An address of the account at `branch` and `index`. -/
structure KnownAddress where
  branch : UInt32
  index : UInt32
  address : String
  tokenAddress : String
  hash : Vector UInt8 20

def receiveHash : Vector UInt8 20 :=
  #v[0x21, 0xbc, 0x80, 0xe1, 0xce, 0x68, 0x13, 0x50, 0x51, 0x4c, 0x79, 0x2a, 0x7b, 0x1c, 0x3b,
    0x71, 0x72, 0xb6, 0x86, 0xa5]

/- The first addresses of an account, as its public key gives them. -/
def knownAddresses : List KnownAddress :=
  [ { branch := 0
      index := 0
      address := "bchtest:qqsmeq8pee5px5z3f3uj57cu8dch9d5x555p7qzdf3"
      tokenAddress := "bchtest:zqsmeq8pee5px5z3f3uj57cu8dch9d5x55ntd7vtkz"
      hash := receiveHash },
    { branch := 1
      index := 0
      address := "bchtest:qrdxgd2hwwt5udesnjmyauwyhlcz3xtjuqmsgmzvv8"
      tokenAddress := "bchtest:zrdxgd2hwwt5udesnjmyauwyhlcz3xtjuqu6m9v2n5"
      hash :=
        #v[0xda, 0x64, 0x35, 0x57, 0x73, 0x97, 0x4e, 0x37, 0x30, 0x9c, 0xb6, 0x4e, 0xf1, 0xc4, 0xbf,
          0xf0, 0x28, 0x99, 0x72, 0xe0] },
    { branch := 7
      index := 0
      address := "bchtest:qqtunz2qdkk3u3fmh93v5k0ha3742hly4qmegxc5ny"
      tokenAddress := "bchtest:zqtunz2qdkk3u3fmh93v5k0ha3742hly4qunmckjvh"
      hash :=
        #v[0x17, 0xc9, 0x89, 0x40, 0x6d, 0xad, 0x1e, 0x45, 0x3b, 0xb9, 0x62, 0xca, 0x59, 0xf7, 0xec,
          0x7d, 0x55, 0x5f, 0xe4, 0xa8] },
    { branch := 2
      index := 0
      address := "bchtest:qpvwt032u4ked5qx9yg9vhu4r8y37m5ldcnzrqrz9j"
      tokenAddress := "bchtest:zpvwt032u4ked5qx9yg9vhu4r8y37m5ldc5gs7dy6p"
      hash :=
        #v[0x58, 0xe5, 0xbe, 0x2a, 0xe5, 0x6d, 0x96, 0xd0, 0x06, 0x29, 0x10, 0x56, 0x5f, 0x95, 0x19,
          0xc9, 0x1f, 0x6e, 0x9f, 0x6e] },
    { branch := 0
      index := 1
      address := "bchtest:qrs450sqyndmgldhvtarlyle9lzqvsmq5v77rl4zkl"
      tokenAddress := "bchtest:zrs450sqyndmgldhvtarlyle9lzqvsmq5ve5spmyfv"
      hash :=
        #v[0xe1, 0x5a, 0x3e, 0x00, 0x24, 0xdb, 0xb4, 0x7d, 0xb7, 0x62, 0xfa, 0x3f, 0x93, 0xf9, 0x2f,
          0xc4, 0x06, 0x43, 0x60, 0xa3] }]

def paymentDigest : Vector UInt8 32 :=
  #v[0x11, 0x36, 0x1d, 0x15, 0x19, 0x78, 0xbc, 0x4f, 0xd0, 0xab, 0x7c, 0xc5, 0x02, 0x6c, 0x3a, 0x48,
    0xee, 0xab, 0x67, 0xdb, 0x0b, 0x25, 0xf3, 0x7b, 0x8d, 0x51, 0x23, 0x87, 0xc8, 0x8c, 0xa5, 0xff]

def paymentTxid : Vector UInt8 32 :=
  #v[0xee, 0x47, 0xb8, 0xbc, 0xd0, 0x41, 0xd3, 0x4c, 0x0d, 0x4c, 0xbe, 0x21, 0x20, 0xe0, 0x7c, 0x78,
    0xbb, 0xc1, 0x48, 0x1a, 0x87, 0xc8, 0x69, 0x1a, 0xc3, 0x34, 0xab, 0x7e, 0xc6, 0xa5, 0x50, 0x30]

/- It pays to the first receive address and has no inputs. -/
def receivePayment : List UInt8 :=
  Transaction.serialize
    { version := 2
      inputs := []
      outputs :=
        [{ value := 1200
           scriptPubkey :=
             Address.scriptPubkey
               { kind := .p2pkh
                 hash := receiveHash
                 addressPrefix := "bchtest" }
           tokenPrefix := none }]
      locktime := 0
      sequence := 0 }
    []

def knownXpub : String :=
  "xpub6ByHsPNSQXTWaEnBpLBYBDu1RHbTjKtbZjR77k6fAAu2rt4bxkA1wSpC6XKZry859RLjoPGnnNdnavMhZwQsJhpswujwN4yPw5hWRit17F2"

/- The codecs at these addresses, this key and this transaction. -/
def knownCodecs : WalletCodecs :=
  { sha256 := fun bytes =>
      if bytes = receivePayment then paymentDigest
      else if bytes = paymentDigest.toList then paymentTxid
      else Vector.replicate 32 0
    decodeAddress := fun text =>
      match knownAddresses.find? (fun known => known.address = text)
      with
      | some known => .ok
          { kind := .p2pkh
            hash := known.hash
            addressPrefix := "bchtest" }
      | none => .error "address payload is empty"
    encodeAddress := fun address =>
      match knownAddresses.find? (fun known => known.hash = address.hash)
      with
      | some known => known.address
      | none => ""
    parseAccountPath := fun _ => .ok ⟨145, 1⟩
    accountChildNumber := fun _ => .ok 0x80000001
    addressUnderAccount := fun _ _ branch index =>
      match knownAddresses.find? (fun known => known.branch = branch ∧ known.index = index)
      with
      | some known => .ok
          { path := ""
            address := known.address
            tokenAddress := known.tokenAddress }
      | none => .error (.usage "could not derive public wallet address") }

/- An answer about everything that a scan watches. -/
def paymentSnapshot (scan : HdAccountScan) : WalletNetworkSnapshot :=
  { hd := none
    interests :=
      match scan.interests knownCodecs with
      | .ok interests => interests
      | .error _ => []
    transactions := [{ txid := paymentTxid, raw := receivePayment, blockHeight := some 50 }]
    tip := some { height := 100, hash := Vector.replicate 32 7 } }

def knownLimits : HdSyncLimits := { gapLimit := 1, addressesPerBranch := 2 }

def knownScan : Except ScanFailure HdAccountScan :=
  new knownCodecs .chipnet knownXpub ⟨145, 1⟩ knownLimits ∅

/- The scan after a round that answers with the payment. -/
def afterPayment (scan : HdAccountScan) : HdAccountScan :=
  (scan.advance knownCodecs (paymentSnapshot scan)).1

/- The round that sees the payment is open, and the next one is complete. -/
theorem scan_is_bounded_and_complete_payment :
    ∃ scan,
    knownScan = .ok scan ∧ (scan.advance knownCodecs (paymentSnapshot scan)).2 = .ok false ∧
      Round knownCodecs (paymentSnapshot (afterPayment scan)) (afterPayment scan)
        (afterPayment (afterPayment scan)) (.ok true) := by
  have hRounds :
      ∃ scan,
      knownScan = .ok scan ∧ (scan.advance knownCodecs (paymentSnapshot scan)).2 = .ok false ∧
        ((afterPayment scan).advance knownCodecs (paymentSnapshot (afterPayment scan))).2 =
          .ok true := by
    apply StagedUpdate.exists_ok_of_check
    decide +kernel
  rcases hRounds with ⟨scan, hNew, hOpen, hComplete⟩
  refine ⟨scan, hNew, hOpen, ?_⟩
  have hRound :=
    (scan_is_bounded_and_complete knownCodecs .chipnet knownXpub ⟨145, 1⟩ knownLimits ∅ scan
        [.advance (paymentSnapshot scan), .advance (paymentSnapshot (afterPayment scan))] hNew).2.1
      [.advance (paymentSnapshot scan)] (.advance (paymentSnapshot (afterPayment scan))) [] rfl
  rw [← hComplete]
  exact hRound

end HdAccountScan

end OptnWallet
