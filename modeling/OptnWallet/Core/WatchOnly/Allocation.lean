import Mathlib.Data.List.TakeWhile
import OptnWallet.Core.Text
import OptnWallet.Core.WatchOnly
import OptnWallet.Library.Runs
import OptnWallet.Library.StagedUpdate

/-
  The counters of an account over time: they are stored and read back, observed history moves
  them, and every index that is issued leaves them ahead of it.

  Main declarations:
    * `HdAddressAllocation.tryFrom`
    * `AllocationCall` and `HdAddressAllocation.call`
    * `HdAddressAllocation.InLimits`
    * `indexes_are_never_reused`
-/

--- Stored Counters

namespace OptnWallet

structure StoredHdAddressAllocation where
  next : Vector UInt32 3
  currentReceive : Option UInt32
deriving DecidableEq

namespace HdAddressAllocation

def default : HdAddressAllocation := { next := #v[0, 0, 0], currentReceive := none }

def tryFrom (stored : StoredHdAddressAllocation) : Except CliError HdAddressAllocation :=
  if (List.finRange 3).any (fun slot => decide (maxHdAddressesPerBranch < stored.next.get slot))
  then .error (.usage "HD allocation counter exceeds the branch limit")
  else if stored.currentReceive.any
      (fun current => decide (stored.next.get HdBranch.receive.slot ≤ current))
  then .error (.usage "current receive index must precede the next allocation")
  else .ok { next := stored.next, currentReceive := stored.currentReceive }

def stored (self : HdAddressAllocation) : StoredHdAddressAllocation :=
  { next := self.next, currentReceive := self.currentReceive }

variable (codec : SerdeJson StoredHdAddressAllocation)

def serialize (self : HdAddressAllocation) : Option String := codec.toString self.stored

def deserialize (json : String) : Option HdAddressAllocation :=
  (codec.fromStr json).bind (fun stored => (tryFrom stored).toOption)

--- Calls

end HdAddressAllocation

/- A call on the counters, or storing and reading them. -/
inductive AllocationCall where
  | observe (lastUsed : Vector (Option UInt32) 3)
  | allocate (branch : HdBranch) (lastUsed : Vector (Option UInt32) 3) (acknowledgeGap : Bool)
  | reload

/- The last used indexes that a call claims. -/
def AllocationCall.history : AllocationCall → Vector (Option UInt32) 3
  | observe lastUsed => lastUsed
  | allocate _ lastUsed _ => lastUsed
  | reload => Vector.replicate 3 none

namespace HdAddressAllocation

section

variable (codec : SerdeJson StoredHdAddressAllocation)

/- What a call answers, with the index that it issues, and the counters behind it.  Nothing is
   answered where it fails. -/
def call (self : HdAddressAllocation) :
    AllocationCall → Option (Option UInt32) × HdAddressAllocation
  | .observe lastUsed =>
    match self.observe lastUsed with
    | .ok next => (some none, next)
    | .error _ => (none, self)
  | .allocate branch lastUsed acknowledgeGap =>
    match self.allocate branch lastUsed acknowledgeGap with
    | .ok (next, index) => (some (some index), next)
    | .error _ => (none, self)
  | .reload =>
    match (self.serialize codec).bind (deserialize codec) with
    | some next => (some none, next)
    | none => (none, self)

def after (self : HdAddressAllocation)
    (made : AllocationCall) : HdAddressAllocation := (self.call codec made).2

section

variable (branch : HdBranch) (self : HdAddressAllocation) (made : AllocationCall)

/- The index that a call issues on the branch. -/
def issuedBy : List UInt32 :=
  match made, (self.call codec made).1 with
  | .allocate other _ _, some (some index) => if other = branch then [index] else []
  | _, _ => []

/- The last used index that a call takes in on the branch. -/
def observedBy : List UInt32 :=
  if (self.call codec made).1.isSome then (made.history.get branch.slot).toList
  else []

end

end

/- All of them over a run, in order. -/
def gathered (codec : SerdeJson StoredHdAddressAllocation)
    (gatheredBy : HdAddressAllocation → AllocationCall → List UInt32) :
    HdAddressAllocation → List AllocationCall → List UInt32
  | _, [] => []
  | self, made :: calls =>
    gatheredBy self made ++ gathered codec gatheredBy (self.after codec made) calls

section

variable (codec : SerdeJson StoredHdAddressAllocation) (branch : HdBranch)

def issued : HdAddressAllocation → List AllocationCall → List UInt32 :=
  gathered codec (issuedBy codec branch)

def observed : HdAddressAllocation → List AllocationCall → List UInt32 :=
  gathered codec (observedBy codec branch)

end

/- The additions of taking in history, which stops at an index beyond the limit. -/
def historySums (lastUsed : Vector (Option UInt32) 3) : List (UInt32 × UInt32) :=
  ((((List.finRange 3).map lastUsed.get).reduceOption).takeWhile
      (fun used => decide (used < maxHdAddressesPerBranch))).map (fun used => (used, 1))

/- The additions of a call, as far as it gets. -/
def sums (self : HdAddressAllocation) : AllocationCall → List (UInt32 × UInt32)
  | .observe lastUsed => historySums lastUsed
  | .allocate branch lastUsed acknowledgeGap => historySums lastUsed ++
      match self.observedNext lastUsed with
      | .error _ => []
      | .ok next =>
        let index := next.get branch.slot
        let used := lastUsed.get branch.slot
        let firstUnused := (used.map (fun used => used + 1)).getD 0
        if maxHdAddressesPerBranch ≤ index then []
        else used.toList.map (fun used => (used, 1)) ++
            (if branch = .receive ∧ acknowledgeGap = false
            then [(firstUnused, gapLimit)]
            else []) ++
              (if branch = .receive ∧ acknowledgeGap = false ∧ firstUnused + gapLimit ≤ index
              then []
              else [(index, 1)])
  | .reload => []

--- What A Call Does

variable {codec : SerdeJson StoredHdAddressAllocation}

/- The counters that can be stored and read back. -/
structure InLimits (allocation : HdAddressAllocation) : Prop where
  next : ∀ slot, (allocation.next.get slot).toNat ≤ maxHdAddressesPerBranch.toNat
  current :
    ∀ current,
    allocation.currentReceive = some current → current < allocation.next.get HdBranch.receive.slot

variable {self : HdAddressAllocation}

theorem tryFrom_eq_ok_iff {stored : StoredHdAddressAllocation} :
    tryFrom stored = .ok self ↔ stored = self.stored ∧ self.InLimits := by
  unfold tryFrom
  constructor
  · intro hFrom
    split at hFrom
    · cases hFrom
    rename_i hNext
    split at hFrom
    · cases hFrom
    rename_i hCurrent
    cases hFrom
    refine ⟨rfl, ?_, ?_⟩
    · intro slot
      rw [List.any_eq_true] at hNext
      by_contra hAbove
      apply hNext
      refine ⟨slot, List.mem_finRange slot, ?_⟩
      apply decide_eq_true
      rw [UInt32.lt_iff_toNat_lt]
      exact Nat.lt_of_not_le hAbove
    · intro current hHere
      dsimp only at hHere
      rw [hHere, Option.any_some, decide_eq_true_eq, UInt32.not_le] at hCurrent
      exact hCurrent
  · rintro ⟨rfl, hLimits⟩
    have hNext :
        ¬ (List.finRange 3).any
            (fun slot => decide (maxHdAddressesPerBranch < self.stored.next.get slot)) =
          true := by
      rw [List.any_eq_true]
      rintro ⟨slot, -, hAbove⟩
      have hLt := of_decide_eq_true hAbove
      rw [UInt32.lt_iff_toNat_lt] at hLt
      have hLe := hLimits.next slot
      unfold stored at hLt
      dsimp only at hLt
      omega
    have hCurrent :
        ¬ self.stored.currentReceive.any
            (fun current => decide (self.stored.next.get HdBranch.receive.slot ≤ current)) =
          true := by
      unfold stored
      cases hHere : self.currentReceive with
      | none => simp
      | some current =>
        have hLt := hLimits.current current hHere
        rw [Option.any_some, decide_eq_true_eq, UInt32.not_le]
        exact hLt
    rw [if_neg hNext, if_neg hCurrent]
    rfl

theorem inLimits_default : default.InLimits where
  next := by decide
  current := by
    intro current hCurrent
    cases hCurrent

theorem inLimits_of_deserialize {json : String} (hFrom : deserialize codec json = some self) :
    self.InLimits := by
  unfold deserialize at hFrom
  rcases Option.bind_eq_some_iff.mp hFrom with ⟨stored, -, hFrom⟩
  cases hTry : tryFrom stored with
  | error error =>
    rw [hTry] at hFrom
    cases hFrom
  | ok next =>
    rw [hTry] at hFrom
    cases hFrom
    exact (tryFrom_eq_ok_iff.mp hTry).2

variable {next : HdAddressAllocation}

/- Stored counters come back as they were. -/
theorem reload_eq (hCodec : codec.RoundTrips)
    (hReload : (self.serialize codec).bind (deserialize codec) = some next) : next = self := by
  rcases Option.bind_eq_some_iff.mp hReload with ⟨json, hJson, hFrom⟩
  unfold deserialize at hFrom
  rw [hCodec _ _ hJson, Option.bind_some] at hFrom
  cases hTry : tryFrom self.stored with
  | error error =>
    rw [hTry] at hFrom
    cases hFrom
  | ok read =>
    rw [hTry] at hFrom
    cases hFrom
    have hStored := (tryFrom_eq_ok_iff.mp hTry).1
    unfold stored at hStored
    rw [StoredHdAddressAllocation.mk.injEq] at hStored
    rcases hStored with ⟨hNext, hCurrent⟩
    cases self
    cases next
    dsimp only at hNext hCurrent
    rw [hNext, hCurrent]

theorem get_ofFn {α : Type} (value : Fin 3 → α) (slot : Fin 3) :
    (Vector.ofFn value).get slot = value slot := Vector.getElem_ofFn slot.isLt

theorem get_set {α : Type} (values : Vector α 3) (slot other : Fin 3) (value : α) :
    (values.set slot value).get other =
      if other = slot then value else values.get other := by
  have hSet :
      (values.set slot value).get other =
        if slot.val = other.val then value
        else values.get other :=
    Vector.getElem_set slot.isLt other.isLt
  rw [hSet]
  simp only [Fin.ext_iff, eq_comm]

/- The counters once history is taken in. -/
structure TakesIn (allocation : HdAddressAllocation) (lastUsed : Vector (Option UInt32) 3)
    (next : Vector UInt32 3) : Prop where
  grows : ∀ slot, (allocation.next.get slot).toNat ≤ (next.get slot).toNat
  within :
    ∀ slot,
    (allocation.next.get slot).toNat ≤ maxHdAddressesPerBranch.toNat →
      (next.get slot).toNat ≤ maxHdAddressesPerBranch.toNat
  valid : ∀ slot used, lastUsed.get slot = some used → used < maxHdAddressesPerBranch
  ahead : ∀ slot used, lastUsed.get slot = some used → used.toNat < (next.get slot).toNat

variable {index : UInt32}

/- Below the limit, one more does not overflow. -/
theorem toNat_succ_of_lt (hIndex : index < maxHdAddressesPerBranch) :
    (index + 1).toNat = index.toNat + 1 := by
  have hMax : maxHdAddressesPerBranch.toNat = 10000 := rfl
  have hOne : (1 : UInt32).toNat = 1 := rfl
  rw [UInt32.lt_iff_toNat_lt, hMax] at hIndex
  rw [UInt32.toNat_add, hOne]
  omega

variable {lastUsed : Vector (Option UInt32) 3}

theorem observedNext_spec {next : Vector UInt32 3}
    (hObserved : self.observedNext lastUsed = .ok next) : self.TakesIn lastUsed next := by
  unfold observedNext at hObserved
  split at hObserved
  · cases hObserved
  rename_i hValid
  have hUsed : ∀ slot used, lastUsed.get slot = some used → used < maxHdAddressesPerBranch := by
    intro slot used hSlot
    by_contra hAbove
    apply hValid
    rw [List.any_eq_true]
    refine ⟨slot, List.mem_finRange slot, ?_⟩
    rw [hSlot, Option.any_some]
    exact decide_eq_true (UInt32.not_lt.mp hAbove)
  have hSome :
      ∀ slot used,
      lastUsed.get slot = some used →
        (next.get slot).toNat = max (self.next.get slot).toNat (used.toNat + 1) := by
    intro slot used hSlot
    cases hObserved
    rw [get_ofFn, hSlot, Option.map_some, Option.getD_some,
      ← toNat_succ_of_lt (hUsed slot used hSlot)]
    exact UInt32.toNat_max ..
  have hNone : ∀ slot, lastUsed.get slot = none → next.get slot = self.next.get slot := by
    intro slot hSlot
    cases hObserved
    rw [get_ofFn, hSlot]
    rfl
  refine ⟨?_, ?_, hUsed, ?_⟩
  · intro slot
    cases hSlot : lastUsed.get slot with
    | none => rw [hNone slot hSlot]
    | some used =>
      rw [hSome slot used hSlot]
      exact le_max_left _ _
  · intro slot hLe
    cases hSlot : lastUsed.get slot with
    | none =>
      rw [hNone slot hSlot]
      exact hLe
    | some used =>
      rw [hSome slot used hSlot]
      have hLt := hUsed slot used hSlot
      rw [UInt32.lt_iff_toNat_lt] at hLt
      exact max_le hLe hLt
  · intro slot used hSlot
    rw [hSome slot used hSlot]
    exact lt_of_lt_of_le (Nat.lt_succ_self _) (le_max_right _ _)

/- What issuing an index does to the counters. -/
structure Issues (allocation : HdAddressAllocation) (branch : HdBranch)
    (lastUsed : Vector (Option UInt32) 3) (next : HdAddressAllocation) (index : UInt32) : Prop where
  takesIn :
    ∃ taken,
    allocation.TakesIn lastUsed taken ∧
      index = taken.get branch.slot ∧
      next.next = taken.set branch.slot (index + 1) branch.slot.isLt
  below : index < maxHdAddressesPerBranch
  current :
    next.currentReceive =
      if branch = .receive then some index
      else allocation.currentReceive

variable {branch : HdBranch}

theorem allocate_spec {acknowledgeGap : Bool}
    (hAllocate : self.allocate branch lastUsed acknowledgeGap = .ok (next, index)) :
    self.Issues branch lastUsed next index := by
  unfold allocate at hAllocate
  rcases StagedUpdate.bind_eq_ok_iff.mp hAllocate with ⟨taken, hTaken, hRest⟩
  dsimp only at hRest
  split at hRest
  · cases hRest
  rename_i hBelow
  split at hRest
  · cases hRest
  cases hRest
  exact ⟨⟨taken, observedNext_spec hTaken, rfl, rfl⟩, UInt32.not_le.mp hBelow, rfl⟩

theorem observe_spec (hObserve : self.observe lastUsed = .ok next) :
    self.TakesIn lastUsed next.next ∧ next.currentReceive = self.currentReceive := by
  unfold observe at hObserve
  rcases StagedUpdate.bind_eq_ok_iff.mp hObserve with ⟨taken, hTaken, hRest⟩
  cases hRest
  exact ⟨observedNext_spec hTaken, rfl⟩

section

variable (hIssues : self.Issues branch lastUsed next index)
include hIssues

/- The counter behind an issued index. -/
theorem Issues.toNat_get : (next.next.get branch.slot).toNat = index.toNat + 1 := by
  rcases hIssues.takesIn with ⟨taken, -, -, hNext⟩
  rw [hNext, get_set, if_pos rfl]
  exact toNat_succ_of_lt hIssues.below

theorem Issues.index_le : (self.next.get branch.slot).toNat ≤ index.toNat := by
  rcases hIssues.takesIn with ⟨taken, hTaken, hIndex, -⟩
  rw [hIndex]
  exact hTaken.grows branch.slot

theorem Issues.grows (slot : Fin 3) : (self.next.get slot).toNat ≤ (next.next.get slot).toNat := by
  by_cases hSlot : slot = branch.slot
  · rw [hSlot, hIssues.toNat_get]
    exact Nat.le_succ_of_le hIssues.index_le
  · rcases hIssues.takesIn with ⟨taken, hTaken, -, hNext⟩
    rw [hNext, get_set, if_neg hSlot]
    exact hTaken.grows slot

end

theorem TakesIn.inLimits (hTakes : self.TakesIn lastUsed next.next)
    (hCurrent : next.currentReceive = self.currentReceive) (hLimits : self.InLimits) :
    next.InLimits := by
  constructor
  · intro slot
    exact hTakes.within slot (hLimits.next slot)
  · intro current hHere
    rw [hCurrent] at hHere
    have hLt := hLimits.current current hHere
    rw [UInt32.lt_iff_toNat_lt] at hLt ⊢
    exact lt_of_lt_of_le hLt (hTakes.grows _)

theorem Issues.inLimits (hIssues : self.Issues branch lastUsed next index)
    (hLimits : self.InLimits) : next.InLimits := by
  constructor
  · intro slot
    by_cases hSlot : slot = branch.slot
    · have hBelow := hIssues.below
      rw [UInt32.lt_iff_toNat_lt] at hBelow
      rw [hSlot, hIssues.toNat_get]
      exact hBelow
    · rcases hIssues.takesIn with ⟨taken, hTaken, -, hNext⟩
      rw [hNext, get_set, if_neg hSlot]
      exact hTaken.within slot (hLimits.next slot)
  · intro current hHere
    rw [hIssues.current] at hHere
    rw [UInt32.lt_iff_toNat_lt]
    split at hHere
    · rename_i hReceive
      cases hHere
      rw [← hReceive, hIssues.toNat_get]
      exact Nat.lt_succ_self _
    · have hLt := hLimits.current current hHere
      rw [UInt32.lt_iff_toNat_lt] at hLt
      exact lt_of_lt_of_le hLt (hIssues.grows _)

--- Steps

/- What any call does: nothing, or it takes in history, or it issues an index. -/
inductive Step (self : HdAddressAllocation) :
    AllocationCall → Option (Option UInt32) → HdAddressAllocation → Prop where
  | failed (made : AllocationCall) : Step self made none self
  | observed (lastUsed : Vector (Option UInt32) 3) (next : HdAddressAllocation)
      (hTakes : self.TakesIn lastUsed next.next)
      (hCurrent : next.currentReceive = self.currentReceive) :
      Step self (.observe lastUsed) (some none) next
  | issued (branch : HdBranch) (lastUsed : Vector (Option UInt32) 3) (acknowledgeGap : Bool)
      (next : HdAddressAllocation)
      (index : UInt32)
      (hIssues : self.Issues branch lastUsed next index) :
      Step self (.allocate branch lastUsed acknowledgeGap) (some (some index)) next
  | reloaded : Step self .reload (some none) self

theorem call_step (hCodec : codec.RoundTrips) (self : HdAddressAllocation) (made : AllocationCall) :
    Step self made (self.call codec made).1 (self.after codec made) := by
  unfold after
  cases made with
  | observe lastUsed =>
    unfold call
    dsimp only
    cases hObserve : self.observe lastUsed with
    | error error => exact .failed _
    | ok next =>
      rcases observe_spec hObserve with ⟨hTakes, hCurrent⟩
      exact .observed lastUsed next hTakes hCurrent
  | allocate branch lastUsed acknowledgeGap =>
    unfold call
    dsimp only
    cases hAllocate : self.allocate branch lastUsed acknowledgeGap with
    | error error => exact .failed _
    | ok answer =>
      rcases answer with ⟨next, index⟩
      exact .issued _ _ _ _ _ (allocate_spec hAllocate)
  | reload =>
    unfold call
    dsimp only
    cases hReload : (self.serialize codec).bind (deserialize codec) with
    | none => exact .failed _
    | some next =>
      rw [reload_eq hCodec hReload]
      exact .reloaded

variable {made : AllocationCall} {answer : Option (Option UInt32)}

section

variable (hStep : Step self made answer next)
include hStep

theorem Step.grows (slot : Fin 3) : (self.next.get slot).toNat ≤ (next.next.get slot).toNat := by
  cases hStep with
  | failed => exact Nat.le_refl _
  | observed _ _ hTakes _ => exact hTakes.grows slot
  | issued _ _ _ _ _ hIssues => exact hIssues.grows slot
  | reloaded => exact Nat.le_refl _

theorem Step.inLimits (hLimits : self.InLimits) : next.InLimits := by
  cases hStep with
  | failed => exact hLimits
  | observed _ _ hTakes hCurrent => exact hTakes.inLimits hCurrent hLimits
  | issued _ _ _ _ _ hIssues => exact hIssues.inLimits hLimits
  | reloaded => exact hLimits

theorem Step.eq_of_failed (hFailed : answer = none) : next = self := by
  cases hStep with
  | failed => rfl
  | observed => cases hFailed
  | issued => cases hFailed
  | reloaded => rfl

end

--- Runs

theorem after_run_grows (hCodec : codec.RoundTrips) (self : HdAddressAllocation)
    (calls : List AllocationCall) (slot : Fin 3) :
    (self.next.get slot).toNat ≤ ((calls.foldl (after codec) self).next.get slot).toNat := by
  induction calls generalizing self with
  | nil => exact Nat.le_refl _
  | cons made calls ih =>
    exact Nat.le_trans ((call_step hCodec self made).grows slot) (ih (self.after codec made))

theorem mem_issuedBy (hCodec : codec.RoundTrips)
    (hIssued : index ∈ issuedBy codec branch self made) :
    ∃ lastUsed acknowledgeGap,
    made = .allocate branch lastUsed acknowledgeGap ∧
      self.Issues branch lastUsed (self.after codec made) index := by
  have hStep := call_step hCodec self made
  unfold issuedBy at hIssued
  cases made with
  | observe lastUsed => cases hIssued
  | reload => cases hIssued
  | allocate other lastUsed acknowledgeGap =>
    split at hIssued
    · rename_i issuedBranch _ _ found hMade hAnswer
      cases hMade
      rw [hAnswer] at hStep
      split at hIssued
      · rename_i hSame
        subst hSame
        rw [List.mem_singleton] at hIssued
        subst hIssued
        cases hStep with
        | issued _ _ _ _ _ hIssues => exact ⟨lastUsed, acknowledgeGap, rfl, hIssues⟩
      · cases hIssued
    · cases hIssued

variable {used : UInt32}

section

variable (hCodec : codec.RoundTrips)
include hCodec

/- What a call takes in is below the counter it leaves. -/
theorem lt_of_mem_observedBy (hObserved : used ∈ observedBy codec branch self made) :
    used.toNat < ((self.after codec made).next.get branch.slot).toNat := by
  have hStep := call_step hCodec self made
  unfold observedBy at hObserved
  split at hObserved
  · rename_i hSome
    rw [Option.mem_toList] at hObserved
    revert hSome hStep
    generalize (self.call codec made).1 = answer
    generalize self.after codec made = next
    intro hStep hSome
    cases hStep with
    | failed => cases hSome
    | observed lastUsed _ hTakes _ => exact hTakes.ahead branch.slot used hObserved
    | issued other lastUsed _ _ index hIssues =>
      rcases hIssues.takesIn with ⟨taken, hTakes, hIndex, hNext⟩
      have hAhead := hTakes.ahead branch.slot used hObserved
      rw [hNext, get_set]
      split
      · rename_i hSlot
        rw [hSlot, ← hIndex] at hAhead
        rw [toNat_succ_of_lt hIssues.below]
        omega
      · exact hAhead
    | reloaded =>
      have hNone : AllocationCall.reload.history.get branch.slot = none := by cases branch <;> rfl
      rw [hNone] at hObserved
      cases hObserved
  · cases hObserved

/- By induction over the calls. -/
theorem inLimits_run (hLimits : self.InLimits) (calls : List AllocationCall) :
    (calls.foldl (after codec) self).InLimits := by
  induction calls generalizing self with
  | nil => exact hLimits
  | cons made calls ih => exact ih ((call_step hCodec self made).inLimits hLimits)

/- By induction over the calls. -/
theorem le_of_mem_issued {calls : List AllocationCall}
    (hIssued : index ∈ issued codec branch self calls) :
    (self.next.get branch.slot).toNat ≤ index.toNat := by
  induction calls generalizing self with
  | nil => cases hIssued
  | cons made calls ih =>
    unfold issued gathered at hIssued
    rcases List.mem_append.mp hIssued with hHere | hRest
    · rcases mem_issuedBy hCodec hHere with ⟨_, _, _, hIssues⟩
      exact hIssues.index_le
    · exact Nat.le_trans ((call_step hCodec self made).grows branch.slot) (ih hRest)

/- By induction over the calls. -/
theorem lt_of_mem_observed {calls : List AllocationCall}
    (hObserved : used ∈ observed codec branch self calls) :
    used.toNat < ((calls.foldl (after codec) self).next.get branch.slot).toNat := by
  induction calls generalizing self with
  | nil => cases hObserved
  | cons made calls ih =>
    unfold observed gathered at hObserved
    rcases List.mem_append.mp hObserved with hHere | hRest
    · exact Nat.lt_of_lt_of_le (lt_of_mem_observedBy hCodec hHere)
        (after_run_grows hCodec (self.after codec made) calls branch.slot)
    · exact ih hRest

end

/- A call issues at most one index. -/
theorem issuedBy_pairwise (branch : HdBranch) (self : HdAddressAllocation) (made : AllocationCall) :
    (issuedBy codec branch self made).Pairwise (· < ·) := by
  unfold issuedBy
  split
  · split
    · exact List.pairwise_singleton _ _
    · exact List.Pairwise.nil
  · exact List.Pairwise.nil

theorem issued_pairwise (hCodec : codec.RoundTrips) (branch : HdBranch) (self : HdAddressAllocation)
    (calls : List AllocationCall) : (issued codec branch self calls).Pairwise (· < ·) := by
  induction calls generalizing self with
  | nil => exact List.Pairwise.nil
  | cons made calls ih =>
    unfold issued gathered
    rw [List.pairwise_append]
    refine ⟨issuedBy_pairwise branch self made, ih (self.after codec made), ?_⟩
    intro first hFirst second hSecond
    rcases mem_issuedBy hCodec hFirst with ⟨_, _, _, hIssues⟩
    have hLe := le_of_mem_issued hCodec hSecond
    rw [hIssues.toNat_get] at hLe
    rw [UInt32.lt_iff_toNat_lt]
    exact hLe

/- An index is above all that was taken in before it and with it. -/
theorem lt_of_issued_after (hCodec : codec.RoundTrips) {start : HdAddressAllocation}
    {done : List AllocationCall}
    (hIssued : index ∈ issuedBy codec branch (done.foldl (after codec) start) made)
    (hObserved :
        used ∈ observed codec branch start done ∨
          used ∈ observedBy codec branch (done.foldl (after codec) start) made) : used < index := by
  rcases mem_issuedBy hCodec hIssued with ⟨lastUsed, acknowledgeGap, rfl, hIssues⟩
  rw [UInt32.lt_iff_toNat_lt]
  rcases hObserved with hBefore | hWith
  · exact Nat.lt_of_lt_of_le (lt_of_mem_observed hCodec hBefore) hIssues.index_le
  · unfold observedBy at hWith
    split at hWith
    · rw [Option.mem_toList] at hWith
      rcases hIssues.takesIn with ⟨taken, hTakes, hIndex, -⟩
      rw [hIndex]
      exact hTakes.ahead branch.slot used hWith
    · cases hWith

theorem gathered_concat (gatheredBy : HdAddressAllocation → AllocationCall → List UInt32)
    (self : HdAddressAllocation) (calls : List AllocationCall) (made : AllocationCall) :
    gathered codec gatheredBy self (calls ++ [made]) =
      gathered codec gatheredBy self calls ++ gatheredBy (calls.foldl (after codec) self) made := by
  induction calls generalizing self with
  | nil => exact List.append_nil _
  | cons first calls ih =>
    rw [List.cons_append, gathered, gathered, ih, List.append_assoc]
    rfl

--- Overflow

/- The two words can be added. -/
def Fits (sum : UInt32 × UInt32) : Prop := sum.1.toNat + sum.2.toNat < 2 ^ 32

theorem fits_of_lt {step : UInt32} (hIndex : index.toNat ≤ 10000) (hStep : step.toNat ≤ 20) :
    Fits (index, step) := by
  unfold Fits
  dsimp only
  omega

theorem historySums_fit {sum : UInt32 × UInt32} (hSum : sum ∈ historySums lastUsed) : Fits sum := by
  unfold historySums at hSum
  rcases List.mem_map.mp hSum with ⟨used, hUsed, rfl⟩
  have hBelow := List.mem_takeWhile_imp hUsed
  rw [decide_eq_true_eq, UInt32.lt_iff_toNat_lt] at hBelow
  exact fits_of_lt (Nat.le_of_lt hBelow) (by decide)

/- The first index that is not known to be used. -/
theorem toNat_firstUnused_le {used : Option UInt32}
    (hUsed : ∀ index, used = some index → index < maxHdAddressesPerBranch) :
    ((used.map (fun index => index + 1)).getD 0).toNat ≤ 10000 := by
  cases used with
  | none => decide
  | some index =>
    have hBelow := hUsed index rfl
    rw [Option.map_some, Option.getD_some, toNat_succ_of_lt hBelow]
    rw [UInt32.lt_iff_toNat_lt] at hBelow
    exact hBelow

/- No addition of a call overflows, whatever it is told. -/
theorem sums_fit {sum : UInt32 × UInt32} (hSum : sum ∈ self.sums made) : Fits sum := by
  cases made with
  | observe lastUsed => exact historySums_fit hSum
  | reload => cases hSum
  | allocate branch lastUsed acknowledgeGap =>
    unfold sums at hSum
    dsimp only at hSum
    rcases List.mem_append.mp hSum with hHistory | hRest
    · exact historySums_fit hHistory
    cases hTaken : self.observedNext lastUsed with
    | error error =>
      rw [hTaken] at hRest
      cases hRest
    | ok next =>
      have hTakes := observedNext_spec hTaken
      have hUsed := hTakes.valid branch.slot
      have hFirst := toNat_firstUnused_le hUsed
      rw [hTaken] at hRest
      dsimp only at hRest
      split at hRest
      · cases hRest
      rename_i hBelow
      rw [UInt32.not_le, UInt32.lt_iff_toNat_lt] at hBelow
      rcases List.mem_append.mp hRest with hRest | hIndex
      · rcases List.mem_append.mp hRest with hOne | hGap
        · rcases List.mem_map.mp hOne with ⟨used, hMem, rfl⟩
          rw [Option.mem_toList] at hMem
          have hLt := hUsed used hMem
          rw [UInt32.lt_iff_toNat_lt] at hLt
          exact fits_of_lt (Nat.le_of_lt hLt) (by decide)
        · split at hGap
          · rw [List.mem_singleton] at hGap
            rw [hGap]
            exact fits_of_lt hFirst (by decide)
          · cases hGap
      · split at hIndex
        · cases hIndex
        · rw [List.mem_singleton] at hIndex
          rw [hIndex]
          exact fits_of_lt (Nat.le_of_lt hBelow) (by decide)

--- No Index Is Issued Twice

/- Where counters come from: they are new, or they were read from a file. -/
inductive Begins (codec : SerdeJson StoredHdAddressAllocation) : HdAddressAllocation → Prop where
  | new : Begins codec default
  | read (json : String) (self : HdAddressAllocation) (hFrom : deserialize codec json = some self) :
      Begins codec self

theorem Begins.inLimits (hBegins : Begins codec self) : self.InLimits := by
  cases hBegins with
  | new => exact inLimits_default
  | read json _ hFrom => exact inLimits_of_deserialize hFrom

/-
  Whatever is called in whatever order: the indexes of a branch only grow, each is above all that
  was observed of its branch so far and below the limit, the receive index shown is behind its
  counter, no sum overflows, and a call that fails changes nothing.
-/
theorem indexes_are_never_reused {codec : SerdeJson StoredHdAddressAllocation}
    (hCodec : codec.RoundTrips) {start : HdAddressAllocation} (hStart : Begins codec start)
    (calls : List AllocationCall) :
    (∀ branch, (issued codec branch start calls).Pairwise (· < ·)) ∧
    Runs.EachState (after codec)
      (fun self => ∀ current, self.currentReceive = some current → current < self.next.get 0) start
      calls ∧
    Runs.EachStep (after codec)
      (fun self made => (∀ sum ∈ self.sums made, Fits sum) ∧
          ((self.call codec made).1 = none → self.after codec made = self)) start calls ∧
    ∀ done made rest,
      calls = done ++ made :: rest →
        ∀ branch,
          ∀ index ∈ issuedBy codec branch (done.foldl (after codec) start) made,
            index < maxHdAddressesPerBranch ∧
              ∀ used ∈ observed codec branch start (done ++ [made]), used < index := by
  refine ⟨?_, ?_, ?_, ?_⟩
  · intro branch
    exact issued_pairwise hCodec branch start calls
  · intro done rest _
    exact (inLimits_run hCodec hStart.inLimits done).current
  · intro done made rest _
    refine ⟨fun sum hSum => sums_fit hSum, ?_⟩
    intro hFailed
    exact (call_step hCodec (done.foldl (after codec) start) made).eq_of_failed hFailed
  · intro done made rest _ branch index hIssued
    constructor
    · rcases mem_issuedBy hCodec hIssued with ⟨_, _, _, hIssues⟩
      exact hIssues.below
    · intro used hUsed
      unfold observed at hUsed
      rw [gathered_concat, List.mem_append] at hUsed
      exact lt_of_issued_after hCodec hIssued hUsed

/- An index is issued, stored, and not issued again. -/
def sampleStored : StoredHdAddressAllocation := { next := #v[4, 0, 0], currentReceive := some 3 }

def sampleJson : String :=
  "\x7b\"next\":[4,0,0],\"current_receive\":3\x7d"

def sampleCalls : List AllocationCall :=
  [.allocate .receive #v[some 2, none, none] false, .reload, .observe #v[some 1, none, some 10000],
    .allocate .receive #v[none, some 6, none] false]

theorem indexes_are_never_reused_sample :
    issued (SerdeJson.single sampleStored sampleJson) .receive default sampleCalls = [3, 4] ∧
    ([3, 4] : List UInt32).Pairwise (· < ·) := by
  have hIssued :
      issued (SerdeJson.single sampleStored sampleJson) .receive default sampleCalls = [3, 4] := by
    decide +kernel
  refine ⟨hIssued, ?_⟩
  rw [← hIssued]
  exact (indexes_are_never_reused (SerdeJson.single_roundTrips sampleStored sampleJson) .new
      sampleCalls).1 .receive

end HdAddressAllocation

end OptnWallet
