import OptnWallet.Runtime.HeaderView

/-
  Where the history of a wallet can start, and what a scan that starts at some height covers: all
  of it, what was asked for, or nothing that can be decided.

  Main declarations:
    * `WalletRestoreState.scanFloor`
    * `WalletRestoreState.requestRescanFrom`
    * `WalletRestoreState.Honest`
    * `scanFloor_honest_iff`
-/

--- Restore State

namespace OptnWallet

/- A verified block that no history of the wallet predates. -/
structure CreationAnchor (H : Type) where
  height : UInt32
  blockHash : H
deriving DecidableEq

inductive LowerBoundReason where
  | networkGenesis
  | featureActivation (feature : String)
  | userAccepted
  | manualRescan (skippedBelow : UInt32)
deriving DecidableEq

structure JustifiedLowerBound where
  height : UInt32
  reason : LowerBoundReason
deriving DecidableEq

inductive WalletBirthday (H : Type) where
  | createdAt (anchor : CreationAnchor H)
  | importedAtTime (requestedTime : UInt32)
  | importedAtHeight (height : UInt32)
  | unknown
deriving DecidableEq

inductive UndecidableReason where
  | nothingVerified
  | anchorsNotReauthenticated (retainedAnchors : Nat)
  | olderThanRetained (oldestHeight oldestMedianTimePast : UInt32)
deriving DecidableEq

def UndecidableReason.ofUnavailable : RestoreStartUnavailable → UndecidableReason
  | .nothingVerified => nothingVerified
  | .anchorsNotReauthenticated retainedAnchors => anchorsNotReauthenticated retainedAnchors
  | .olderThanRetained oldestHeight oldestMedianTimePast =>
    olderThanRetained oldestHeight oldestMedianTimePast

inductive ScanFloor where
  | complete (fromHeight : UInt32)
  | incomplete (fromHeight : UInt32) (reason : LowerBoundReason)
  | fullHistory
  | undecidable (reason : UndecidableReason)
deriving DecidableEq

structure ManualRescan where
  fromHeight : UInt32
  previousScannedThrough : Option UInt32
deriving DecidableEq

structure WalletRestoreState (H : Type) where
  birthday : WalletBirthday H
  scannedThrough : Option UInt32
  manualRescan : Option ManualRescan
deriving DecidableEq

namespace WalletRestoreState

variable {H : Type}

def new (birthday : WalletBirthday H) : WalletRestoreState H :=
  { birthday, scannedThrough := none, manualRescan := none }

/- The height below, if there is one. -/
def heightBelow (height : UInt32) : Option UInt32 :=
  if height = 0 then none else some (height - 1)

/- Progress is taken back to just below the height, and nothing else is. -/
def requestRescanFrom (self : WalletRestoreState H) (height : UInt32) : WalletRestoreState H :=
  { self with
    manualRescan := some { fromHeight := height, previousScannedThrough := self.scannedThrough }
    scannedThrough :=
      match heightBelow height with
      | none => none
      | some below => self.scannedThrough.map (min · below) }

def clearRescanRequest (self : WalletRestoreState H) : WalletRestoreState H :=
  { self with manualRescan := none }

--- Scan Floors

section

variable (self : WalletRestoreState H) (view : VerifiedHeaderView H) (lookback : UInt32)
  (justifiedLowerBound : Option JustifiedLowerBound)

def birthdayScanFloor : ScanFloor :=
  match self.birthday with
  | .createdAt anchor => .complete anchor.height
  | .importedAtHeight height => .complete height
  | .importedAtTime requestedTime =>
    match view.restoreStartForTime requestedTime lookback with
    | .height height _ => .complete height
    | .unavailable reason => .undecidable (.ofUnavailable reason)
  | .unknown =>
    match justifiedLowerBound with
    | some bound => .incomplete bound.height bound.reason
    | none => .fullHistory

/- A rescan that was asked for wins over the birthday. -/
def scanFloor : ScanFloor :=
  let fromBirthday := self.birthdayScanFloor view lookback justifiedLowerBound
  match self.manualRescan with
  | none => fromBirthday
  | some rescan =>
    let requested := rescan.fromHeight
    match fromBirthday with
    | .complete fromHeight =>
      if requested ≤ fromHeight then .complete requested
      else .incomplete requested (.manualRescan fromHeight)
    | .incomplete fromHeight reason =>
      -- what the birthday leaves out keeps its own reason
      if requested ≤ fromHeight then .incomplete requested reason
      else .incomplete requested (.manualRescan fromHeight)
    | .fullHistory =>
      if requested = 0 then .fullHistory
      else .incomplete requested (.manualRescan 0)
    | .undecidable _ => .incomplete requested (.manualRescan 0)

end

section

variable (self : WalletRestoreState H)

/- Whether the block of the creation anchor is still the one at its height, where the tip can tell.
   -/
def creationAnchorStillHolds [Hash32 H] [DecidableEq H]
    (view : VerifiedHeaderView H) : Option Bool :=
  match self.birthday with
  | .createdAt anchor =>
    match view.tip with
    | none => none
    | some (tipHeight, tipHash) =>
      if tipHeight < anchor.height then some false
      else if tipHeight = anchor.height then some (decide (tipHash = anchor.blockHash))
      else none
  | .importedAtTime _ => none
  | .importedAtHeight _ => none
  | .unknown => none

def recordScannedThrough (height : UInt32) : WalletRestoreState H :=
  { self with
    scannedThrough :=
      match self.scannedThrough with
      | some current => some (max current height)
      | none => some height }

def invalidateFrom (height : UInt32) : WalletRestoreState H :=
  match self.scannedThrough with
  | none => self
  | some current =>
    if current < height then self
    else { self with scannedThrough := heightBelow height }

end

--- Coverage

end WalletRestoreState

namespace ScanFloor

/- The floor reports that no history is left out. -/
def IsComplete : ScanFloor → Prop
  | complete _ => True
  | incomplete _ _ => False
  | fullHistory => True
  | undecidable _ => False

/- The first block of the scan, if that is decided. -/
def start : ScanFloor → Option UInt32
  | complete fromHeight => some fromHeight
  | incomplete fromHeight _ => some fromHeight
  | fullHistory => some 0
  | undecidable _ => none

/- One floor reports no less than another: it starts no later, and it is complete where the other
   one is. -/
structure Covers (floor other : ScanFloor) : Prop where
  isComplete : other.IsComplete → floor.IsComplete
  start :
    ∀ fromHeight,
    other.start = some fromHeight → ∃ earlier, floor.start = some earlier ∧ earlier ≤ fromHeight

end ScanFloor

/- The first block at which the birthday allows history, if the view can tell.  Without a birthday
   it is the first. -/
def WalletBirthday.firstBlock {H : Type} (view : VerifiedHeaderView H) (lookback : UInt32) :
    WalletBirthday H → Option UInt32
  | createdAt anchor => some anchor.height
  | importedAtHeight height => some height
  | importedAtTime requestedTime =>
    match view.restoreStartForTime requestedTime lookback with
    | .height height _ => some height
    | .unavailable _ => none
  | unknown => some 0

namespace WalletRestoreState

variable {H : Type}

/- What a floor promises, whatever the state. -/
structure Honest (state : WalletRestoreState H) (view : VerifiedHeaderView H) (lookback : UInt32)
    (bound : Option JustifiedLowerBound) : Prop where
  /- Complete scans start where the birthday allows it. -/
  justified :
    (state.scanFloor view lookback bound).IsComplete →
    ∃ first fromHeight,
      state.birthday.firstBlock view lookback = some first ∧
        (state.scanFloor view lookback bound).start = some fromHeight ∧
        fromHeight ≤ first
  /- A rescan of everything is complete. -/
  whole : ((state.requestRescanFrom 0).scanFloor view lookback bound).IsComplete
  /- An earlier rescan covers what a later one does. -/
  monotone :
    ∀ height later,
    height ≤ later → ((state.requestRescanFrom height).scanFloor view lookback bound).Covers
        ((state.requestRescanFrom later).scanFloor view lookback bound)
  /- And what the birthday alone would cover. -/
  earlier :
    ∀ height fromHeight,
    (state.clearRescanRequest.scanFloor view lookback bound).start = some fromHeight →
      height ≤ fromHeight →
      ((state.requestRescanFrom height).scanFloor view lookback bound).Covers
        (state.clearRescanRequest.scanFloor view lookback bound)

/- The birthday is a height, a date that the view places, or unknown without a bound in its stead.
   -/
def Resolves (self : WalletRestoreState H) (view : VerifiedHeaderView H) (lookback : UInt32)
    (bound : Option JustifiedLowerBound) : Prop :=
  match self.birthday with
  | .createdAt _ => True
  | .importedAtHeight _ => True
  | .importedAtTime requestedTime =>
    ∃ height taken, view.restoreStartForTime requestedTime lookback = .height height taken
  | .unknown => bound = none

--- Honest Floors

variable {self : WalletRestoreState H} {view : VerifiedHeaderView H} {lookback : UInt32}
variable {bound : Option JustifiedLowerBound}

/- A floor of the birthday that is narrowed by a rescan. -/
def narrowed (requested : UInt32) : ScanFloor → ScanFloor
  | .complete fromHeight =>
    if requested ≤ fromHeight then .complete requested
    else .incomplete requested (.manualRescan fromHeight)
  | .incomplete fromHeight reason =>
    if requested ≤ fromHeight then .incomplete requested reason
    else .incomplete requested (.manualRescan fromHeight)
  | .fullHistory =>
    if requested = 0 then .fullHistory
    else .incomplete requested (.manualRescan 0)
  | .undecidable _ => .incomplete requested (.manualRescan 0)

theorem scanFloor_of_rescan {rescan : ManualRescan} (hRescan : self.manualRescan = some rescan) :
    self.scanFloor view lookback bound =
      narrowed rescan.fromHeight (self.birthdayScanFloor view lookback bound) := by
  unfold scanFloor
  rw [hRescan]
  cases self.birthdayScanFloor view lookback bound <;> rfl

theorem scanFloor_of_none (hRescan : self.manualRescan = none) :
    self.scanFloor view lookback bound = self.birthdayScanFloor view lookback bound := by
  unfold scanFloor
  rw [hRescan]

theorem scanFloor_requestRescanFrom (height : UInt32) :
    (self.requestRescanFrom height).scanFloor view lookback bound =
      narrowed height (self.birthdayScanFloor view lookback bound) := by
  have hRescan :
      (self.requestRescanFrom height).manualRescan = some
          { fromHeight := height
            previousScannedThrough := self.scannedThrough } :=
    rfl
  rw [scanFloor_of_rescan hRescan]
  rfl

@[simp]
theorem start_narrowed (requested : UInt32) (floor : ScanFloor) :
    (narrowed requested floor).start = some requested := by
  cases floor with
  | complete fromHeight =>
    unfold narrowed
    dsimp only
    split <;> rfl
  | incomplete fromHeight reason =>
    unfold narrowed
    dsimp only
    split <;> rfl
  | fullHistory =>
    unfold narrowed
    dsimp only
    split
    · rename_i hZero
      rw [hZero]
      rfl
    · rfl
  | undecidable reason => rfl

variable {floor : ScanFloor}

/- Narrowing keeps a floor complete up to where it starts. -/
theorem isComplete_narrowed_iff {requested : UInt32} :
    (narrowed requested floor).IsComplete ↔
    floor.IsComplete ∧ ∃ fromHeight, floor.start = some fromHeight ∧ requested ≤ fromHeight := by
  cases floor with
  | complete fromHeight =>
    unfold narrowed
    dsimp only
    split
    · rename_i hLe
      exact iff_of_true trivial ⟨trivial, fromHeight, rfl, hLe⟩
    · rename_i hGt
      apply iff_of_false id
      rintro ⟨-, first, hFirst, hLe⟩
      cases hFirst
      exact hGt hLe
  | incomplete fromHeight reason =>
    unfold narrowed
    dsimp only
    split
    · exact iff_of_false id And.left
    · exact iff_of_false id And.left
  | fullHistory =>
    unfold narrowed
    dsimp only
    split
    · rename_i hZero
      exact iff_of_true trivial ⟨trivial, 0, rfl, UInt32.le_of_eq hZero⟩
    · rename_i hPos
      apply iff_of_false id
      rintro ⟨-, first, hFirst, hLe⟩
      cases hFirst
      exact hPos (UInt32.le_antisymm hLe (UInt32.zero_le))
  | undecidable reason => exact iff_of_false id And.left

/- What the birthday alone reports as complete starts at the first block that it allows. -/
theorem start_eq_firstBlock (hComplete : (self.birthdayScanFloor view lookback bound).IsComplete) :
    (self.birthdayScanFloor view lookback bound).start =
      self.birthday.firstBlock view lookback := by
  revert hComplete
  unfold birthdayScanFloor WalletBirthday.firstBlock
  cases self.birthday with
  | createdAt anchor => exact fun _ => rfl
  | importedAtHeight height => exact fun _ => rfl
  | importedAtTime requestedTime =>
    dsimp only
    cases view.restoreStartForTime requestedTime lookback with
    | height height taken => exact fun _ => rfl
    | unavailable reason =>
      intro hComplete
      cases hComplete
  | unknown =>
    cases bound with
    | none => exact fun _ => rfl
    | some bound =>
      intro hComplete
      cases hComplete

/- A floor that is complete has a start. -/
theorem exists_start_of_isComplete (hComplete : floor.IsComplete) :
    ∃ fromHeight, floor.start = some fromHeight := by
  cases floor with
  | complete fromHeight => exact ⟨fromHeight, rfl⟩
  | incomplete fromHeight reason => cases hComplete
  | fullHistory => exact ⟨0, rfl⟩
  | undecidable reason => cases hComplete

/- The birthday alone is complete where it resolves. -/
theorem isComplete_birthday_iff :
    (self.birthdayScanFloor view lookback bound).IsComplete ↔
    self.Resolves view lookback bound := by
  unfold birthdayScanFloor Resolves
  cases self.birthday with
  | createdAt anchor => exact Iff.rfl
  | importedAtHeight height => exact Iff.rfl
  | importedAtTime requestedTime =>
    dsimp only
    cases view.restoreStartForTime requestedTime lookback with
    | height height taken => exact iff_of_true trivial ⟨height, taken, rfl⟩
    | unavailable reason =>
      apply iff_of_false id
      rintro ⟨height, taken, hStart⟩
      cases hStart
  | unknown =>
    cases bound with
    | none => exact iff_of_true trivial rfl
    | some bound =>
      apply iff_of_false id
      intro hNone
      cases hNone

theorem scanFloor_justified (hComplete : (self.scanFloor view lookback bound).IsComplete) :
    ∃ first fromHeight,
    self.birthday.firstBlock view lookback = some first ∧
      (self.scanFloor view lookback bound).start = some fromHeight ∧
      fromHeight ≤ first := by
  cases hRescan : self.manualRescan with
  | none =>
    rw [scanFloor_of_none hRescan] at hComplete ⊢
    rcases exists_start_of_isComplete hComplete with ⟨first, hStart⟩
    refine ⟨first, first, ?_, hStart, UInt32.le_refl first⟩
    rw [← start_eq_firstBlock hComplete, hStart]
  | some rescan =>
    rw [scanFloor_of_rescan hRescan, isComplete_narrowed_iff] at hComplete
    rcases hComplete with ⟨hBirthday, first, hStart, hLe⟩
    refine ⟨first, rescan.fromHeight, ?_, ?_, hLe⟩
    · rw [← start_eq_firstBlock hBirthday, hStart]
    · rw [scanFloor_of_rescan hRescan, start_narrowed]

/- An earlier start covers what a later one does. -/
theorem narrowed_covers {height later : UInt32} (hLe : height ≤ later) (floor : ScanFloor) :
    (narrowed height floor).Covers (narrowed later floor) := by
  constructor
  · intro hComplete
    rw [isComplete_narrowed_iff] at hComplete ⊢
    rcases hComplete with ⟨hFloor, fromHeight, hStart, hLater⟩
    exact ⟨hFloor, fromHeight, hStart, UInt32.le_trans hLe hLater⟩
  · intro fromHeight hStart
    rw [start_narrowed] at hStart
    cases hStart
    exact ⟨height, start_narrowed height floor, hLe⟩

theorem narrowed_covers_birthday {height fromHeight : UInt32}
    (hStart : floor.start = some fromHeight) (hLe : height ≤ fromHeight) :
    (narrowed height floor).Covers floor := by
  constructor
  · intro hComplete
    exact isComplete_narrowed_iff.mpr ⟨hComplete, fromHeight, hStart, hLe⟩
  · intro first hFirst
    rw [hStart] at hFirst
    cases hFirst
    exact ⟨height, start_narrowed height floor, hLe⟩

/- A rescan of everything is complete exactly where the birthday resolves. -/
theorem isComplete_rescan_zero_iff :
    ((self.requestRescanFrom 0).scanFloor view lookback bound).IsComplete ↔
    self.Resolves view lookback bound := by
  rw [scanFloor_requestRescanFrom, isComplete_narrowed_iff, isComplete_birthday_iff]
  constructor
  · exact And.left
  · intro hResolves
    rcases exists_start_of_isComplete (isComplete_birthday_iff.mpr hResolves) with
      ⟨fromHeight, hStart⟩
    exact ⟨hResolves, fromHeight, hStart, UInt32.zero_le⟩

/-
  Floors keep their promises exactly where the birthday resolves: a rescan of everything is
  reported incomplete where the view cannot place the date of the birthday, and where a bound
  stands in for an unknown one.
-/
theorem scanFloor_honest_iff (self : WalletRestoreState H) (view : VerifiedHeaderView H)
    (lookback : UInt32) (bound : Option JustifiedLowerBound) :
    self.Honest view lookback bound ↔ self.Resolves view lookback bound := by
  constructor
  · intro hHonest
    exact isComplete_rescan_zero_iff.mp hHonest.whole
  · intro hResolves
    refine ⟨scanFloor_justified, isComplete_rescan_zero_iff.mpr hResolves, ?_, ?_⟩
    · intro height later hLe
      rw [scanFloor_requestRescanFrom, scanFloor_requestRescanFrom]
      exact narrowed_covers hLe _
    · intro height fromHeight hStart hLe
      have hCleared :
          self.clearRescanRequest.scanFloor view lookback bound =
            self.birthdayScanFloor view lookback bound :=
        scanFloor_of_none rfl
      rw [hCleared] at hStart
      rw [scanFloor_requestRescanFrom, hCleared]
      exact narrowed_covers_birthday hStart hLe

/- Nothing is verified yet, and the wallet was imported with a date. -/
def unverifiedView : VerifiedHeaderView SymbolicHash := .new .chipnet (.empty .selfDerived)

def datedState : WalletRestoreState SymbolicHash := new (.importedAtTime 1600000000)

/- A rescan of everything is then reported as one that skips what is below the first block. -/
theorem rescan_of_everything_is_incomplete :
    (datedState.requestRescanFrom 0).scanFloor unverifiedView 2016 none =
      .incomplete 0 (.manualRescan 0) ∧
    ¬ datedState.Honest unverifiedView 2016 none := by
  have hFloor :
      (datedState.requestRescanFrom 0).scanFloor unverifiedView 2016 none =
        .incomplete 0 (.manualRescan 0) := by
    decide
  refine ⟨hFloor, ?_⟩
  intro hHonest
  have hWhole := hHonest.whole
  rw [hFloor] at hWhole
  exact hWhole

--- Scan Progress

inductive ScanEvent where
  | scannedThrough (height : UInt32)
  | invalidatedFrom (height : UInt32)
  | rescanFrom (height : UInt32)
  | rescanCleared

/- The event takes back what was scanned of the block. -/
def ScanEvent.Undoes (block : UInt32) : ScanEvent → Prop
  | scannedThrough _ => False
  | invalidatedFrom height => height ≤ block
  | rescanFrom height => height ≤ block
  | rescanCleared => False

def after (self : WalletRestoreState H) : ScanEvent → WalletRestoreState H
  | .scannedThrough height => self.recordScannedThrough height
  | .invalidatedFrom height => self.invalidateFrom height
  | .rescanFrom height => self.requestRescanFrom height
  | .rescanCleared => self.clearRescanRequest

/- The progress of the wallet includes the block. -/
def Scanned (self : WalletRestoreState H) (block : UInt32) : Prop :=
  ∃ through ∈ self.scannedThrough, block ≤ through

theorem le_heightBelow_iff {height block : UInt32} :
    (∃ below ∈ heightBelow height, block ≤ below) ↔ block < height := by
  unfold heightBelow
  split
  · rename_i hZero
    simp [hZero]
  · rename_i hPos
    have hNat : height.toNat ≠ 0 := fun hZero => hPos (UInt32.toNat_inj.mp hZero)
    have hOne : 1 ≤ height := UInt32.le_iff_toNat_le.mpr (Nat.one_le_iff_ne_zero.mpr hNat)
    simp only [Option.mem_some, exists_eq_left', UInt32.le_iff_toNat_le, UInt32.lt_iff_toNat_lt,
      UInt32.toNat_sub_of_le _ _ hOne]
    exact Nat.le_sub_one_iff_lt (Nat.pos_of_ne_zero hNat)

/- A block counts after an event that scans it, or where it did and the event does not undo it. -/
theorem scanned_after_iff {event : ScanEvent} {block : UInt32} :
    (self.after event).Scanned block ↔
    (∃ height, event = .scannedThrough height ∧ block ≤ height) ∨
      self.Scanned block ∧ ¬ event.Undoes block := by
  unfold Scanned
  cases event with
  | scannedThrough height =>
    unfold after recordScannedThrough ScanEvent.Undoes
    cases self.scannedThrough with
    | none => simp
    | some current => simp [or_comm]
  | invalidatedFrom height =>
    unfold after invalidateFrom ScanEvent.Undoes
    cases hScanned : self.scannedThrough with
    | none => simp [hScanned]
    | some current =>
      dsimp only
      split
      · rename_i hAbove
        simp [hScanned]
        exact fun hLe => lt_of_le_of_lt hLe hAbove
      · rename_i hBelow
        simp only [le_heightBelow_iff, Option.mem_some, reduceCtorEq, false_and, exists_false,
          false_or, exists_eq_left', not_le]
        exact iff_and_self.mpr fun hLt => hLt.le.trans (not_lt.mp hBelow)
  | rescanFrom height =>
    unfold after requestRescanFrom ScanEvent.Undoes
    have hBelow := @le_heightBelow_iff height block
    cases hHeight : heightBelow height <;> cases self.scannedThrough <;> simp_all
  | rescanCleared =>
    unfold after clearRescanRequest ScanEvent.Undoes
    simp

theorem birthday_after (event : ScanEvent) : (self.after event).birthday = self.birthday := by
  cases event with
  | invalidatedFrom height => grind [after, invalidateFrom]
  | _ => rfl

/-
  In every run a block counts as scanned exactly where a scan reached it and nothing later took it
  back, and the birthday stays.  By induction over the run, from its end.
-/
theorem scanned_iff (birthday : WalletBirthday H) (events : List ScanEvent) :
    (events.foldl after (new birthday)).birthday = birthday ∧ ∀ block,
        (events.foldl after (new birthday)).Scanned block ↔ ∃ done height rest,
            events = done ++ .scannedThrough height :: rest ∧
              block ≤ height ∧ ∀ event ∈ rest, ¬ event.Undoes block := by
  induction events using List.reverseRecOn with
  | nil => simp [new, Scanned]
  | append_singleton events event ih =>
    rw [List.foldl_concat]
    constructor
    · rw [birthday_after, ih.1]
    · intro block
      rw [scanned_after_iff, ih.2]
      constructor
      · rintro (⟨height, rfl, hLe⟩ | ⟨⟨done, height, rest, rfl, hLe, hRest⟩, hKept⟩)
        · exact ⟨events, height, [], rfl, hLe, by simp⟩
        · refine ⟨done, height, rest ++ [event], by simp, hLe, ?_⟩
          grind
      · rintro ⟨done, height, rest, hSplit, hLe, hRest⟩
        rcases List.eq_nil_or_concat rest with rfl | ⟨rest, last, rfl⟩
        · rcases List.append_singleton_inj.mp hSplit with ⟨-, rfl⟩
          exact Or.inl ⟨height, rfl, hLe⟩
        · rw [List.concat_eq_append, ← List.cons_append, ← List.append_assoc,
            List.append_singleton_inj] at hSplit
          rcases hSplit with ⟨rfl, rfl⟩
          exact Or.inr ⟨⟨done, height, rest, rfl, hLe, fun other hMem => hRest other (by simp [hMem])⟩,
            hRest _ (by simp)⟩

end WalletRestoreState

end OptnWallet
