import OptnWallet.Library.Runs

/-
  The lease of a round: a record in storage that all windows share, read and written under a lock.
  Only a release goes on without the lock, and then it reads first and removes later.  What is
  stored can be read.

  Main declarations:
    * `RoundLease.takeLeaseIfFree`, `touchRoundLease` and `dropLease`
    * `RoundLease.step`
    * `RoundLease.leases_kept_iff`
    * `RoundLease.lost_is_refused`
-/

--- Leases

namespace OptnWallet.RoundLease

def leaseTtlMs : Int := 708000

def leaseStaleMs : Int := 45000

/- Owner tokens are random; here they are numbered as they are drawn. -/
structure LeaseRecord where
  owner : Nat
  heartbeat : Int

/- Also the tokens drawn so far, and those whose record was read to be removed without the lock. -/
structure Storage where
  held : Option LeaseRecord
  drawn : Nat
  dropping : List Nat

def initial : Storage := { held := none, drawn := 0, dropping := [] }

def leaseIsLive (held : Option LeaseRecord) (nowMs : Int) : Bool :=
  match held with
  | none => false
  | some held =>
    let age := nowMs - held.heartbeat
    if age < 0 then true
    else if leaseTtlMs ≤ age then false
    else if leaseStaleMs ≤ age then false
    else true

/- Storage may not take a write, or not show what it took. -/
structure Write where
  stored : Bool
  shown : Bool

@[grind]
def writeLease (record : LeaseRecord) (write : Write) (storage : Storage) : Storage × Bool :=
  (if write.stored then { storage with held := some record } else storage,
    write.stored && write.shown)

@[grind]
def takeLeaseIfFree (nowMs : Int) (write : Write) (storage : Storage) : Storage × Option Nat :=
  if leaseIsLive storage.held nowMs then (storage, none)
  else
    let owner := storage.drawn
    let written :=
      writeLease { owner, heartbeat := nowMs } write { storage with drawn := owner + 1 }
    (written.1, if written.2 then some owner else none)

@[grind]
def Holds (owner : Nat) (storage : Storage) : Prop :=
  ∃ held, storage.held = some held ∧ held.owner = owner

instance (owner : Nat) (storage : Storage) : Decidable (Holds owner storage) :=
  decidable_of_iff (storage.held.map LeaseRecord.owner = some owner) Option.map_eq_some_iff

@[grind]
def touchRoundLease (owner : Nat) (nowMs : Int) (write : Write) (storage : Storage) :
    Storage × Bool :=
  if Holds owner storage then writeLease { owner, heartbeat := nowMs } write storage
  else (storage, false)

@[grind]
def removeLease (removed : Bool) (storage : Storage) : Storage :=
  if removed then { storage with held := none } else storage

@[grind]
def dropLease (owner : Nat) (removed : Bool) (storage : Storage) : Storage :=
  if Holds owner storage then removeLease removed storage else storage

@[grind]
def reclaimStaleRoundState (nowMs : Int) (removed : Bool) (storage : Storage) : Storage × Bool :=
  if leaseIsLive storage.held nowMs then (storage, false) else (removeLease removed storage, true)

--- Interleavings

/-
  What the windows do, one critical section after the other.  An acquire and a touch took their
  time at any moment before.  Without a lock manager only a release does anything, in two events.
-/
inductive Event where
  | acquire (nowMs : Int) (write : Write)
  | touch (owner : Nat) (nowMs : Int) (write : Write)
  | release (owner : Nat) (removed : Bool)
  | reclaim (nowMs : Int) (removed : Bool)
  | readUnlocked (owner : Nat)
  | removeUnlocked (owner : Nat) (nowMs : Int) (removed : Bool)

@[grind]
def step (storage : Storage) : Event → Storage
  | .acquire nowMs write => (takeLeaseIfFree nowMs write storage).1
  | .touch owner nowMs write => (touchRoundLease owner nowMs write storage).1
  | .release owner removed => dropLease owner removed storage
  | .reclaim nowMs removed => (reclaimStaleRoundState nowMs removed storage).1
  | .readUnlocked owner =>
    if Holds owner storage then { storage with dropping := owner :: storage.dropping }
    else storage
  | .removeUnlocked owner _ removed =>
    if owner ∈ storage.dropping then
      removeLease removed { storage with dropping := storage.dropping.erase owner }
    else storage

/- The event may end this lease: it is its owner's, or the lease is not live. -/
@[grind]
def MayEnd (held : LeaseRecord) : Event → Prop
  | .acquire nowMs _ => leaseIsLive (some held) nowMs = false
  | .reclaim nowMs _ => leaseIsLive (some held) nowMs = false
  | .release owner _ => held.owner = owner
  | .removeUnlocked owner nowMs _ => held.owner = owner ∨ leaseIsLive (some held) nowMs = false
  | .touch _ _ _ => False
  | .readUnlocked _ => False

/- The event ends no lease that it may not end, and sets no heartbeat back. -/
structure Keeps (storage : Storage) (event : Event) : Prop where
  ends : ∀ held, storage.held = some held → ¬ Holds held.owner (step storage event) → MayEnd held event
  forward :
    ∀ held held', storage.held = some held → (step storage event).held = some held' →
      held'.owner = held.owner → held.heartbeat ≤ held'.heartbeat

/-
  What a touch writes is no older than the record, and what is removed without the lock is not the
  live lease of an owner that took over after the read.
-/
@[grind]
def Fair (storage : Storage) : Event → Prop
  | .touch owner nowMs write =>
    write.stored = true →
      ∀ held, storage.held = some held → held.owner = owner → held.heartbeat ≤ nowMs
  | .removeUnlocked owner nowMs removed =>
    removed = true → owner ∈ storage.dropping →
      ∀ held, storage.held = some held →
        leaseIsLive (some held) nowMs = true → held.owner = owner
  | _ => True

variable {storage : Storage} {event : Event}

/- The recorded token was drawn. -/
def Drawn (storage : Storage) : Prop :=
  ∀ held, storage.held = some held → held.owner < storage.drawn

theorem keeps_iff_fair (hDrawn : Drawn storage) : Keeps storage event ↔ Fair storage event := by
  unfold Drawn at hDrawn
  constructor
  · rintro ⟨hEnds, hForward⟩
    cases event with
    | touch owner nowMs write => grind
    | removeUnlocked owner nowMs removed => grind
    | _ => trivial
  · intro hFair
    cases event with
    | acquire nowMs write => constructor <;> grind
    | touch owner nowMs write => constructor <;> grind
    | release owner removed => constructor <;> grind
    | reclaim nowMs removed => constructor <;> grind
    | readUnlocked owner => constructor <;> grind
    | removeUnlocked owner nowMs removed => constructor <;> grind

/- Only a token that is drawn now is new. -/
theorem holds_of_step {owner : Nat} (hHolds : Holds owner (step storage event)) :
    Holds owner storage ∨ owner = storage.drawn ∧ (step storage event).drawn = owner + 1 := by
  cases event <;> grind

theorem drawn_le_step : storage.drawn ≤ (step storage event).drawn := by cases event <;> grind

theorem drawn_step (hDrawn : Drawn storage) : Drawn (step storage event) := by
  intro held hHeld
  rcases holds_of_step ⟨held, hHeld, rfl⟩ with ⟨old, hOld, hSame⟩ | ⟨-, hNext⟩
  · rw [← hSame]
    exact lt_of_lt_of_le (hDrawn old hOld) drawn_le_step
  · rw [hNext]
    exact Nat.lt_succ_self _

theorem drawn_run (hDrawn : Drawn storage) (events : List Event) :
    Drawn (events.foldl step storage) := by
  induction events generalizing storage with
  | nil => exact hDrawn
  | cons event events ih => exact ih (drawn_step hDrawn)

/- The windows keep one another's live leases and set no heartbeat back, exactly in the runs that
   are fair. -/
theorem leases_kept_iff (events : List Event) :
    Runs.EachStep step Keeps initial events ↔ Runs.EachStep step Fair initial events := by
  have hDrawn : Drawn initial := fun _ hHeld => by cases hHeld
  constructor
  · intro hKeeps done event rest hSplit
    exact (keeps_iff_fair (drawn_run hDrawn done)).mp (hKeeps done event rest hSplit)
  · intro hFair done event rest hSplit
    exact (keeps_iff_fair (drawn_run hDrawn done)).mpr (hFair done event rest hSplit)

/- Whoever drew a token and does not hold the lease is told so ever after. -/
def Refuses (storage : Storage) : Prop :=
  ∀ owner < storage.drawn, ¬ Holds owner storage → ∀ (later : List Event) nowMs write,
    (touchRoundLease owner nowMs write (later.foldl step storage)).2 = false

theorem lost_stays_lost {owner : Nat} (hDrawn : owner < storage.drawn)
    (hLost : ¬ Holds owner storage) (later : List Event) :
    ¬ Holds owner (later.foldl step storage) := by
  induction later generalizing storage with
  | nil => exact hLost
  | cons event later ih =>
    apply ih (lt_of_lt_of_le hDrawn drawn_le_step)
    intro hHolds
    rcases holds_of_step hHolds with hBefore | ⟨rfl, -⟩
    · exact hLost hBefore
    · exact lt_irrefl _ hDrawn

/- A lease that was lost is never held again, in whatever order the windows go on. -/
theorem lost_is_refused (events : List Event) : Runs.EachState step Refuses initial events := by
  intro done rest hSplit owner hDrawn hLost later nowMs write
  unfold touchRoundLease
  rw [if_neg (lost_stays_lost hDrawn hLost later)]

end OptnWallet.RoundLease
