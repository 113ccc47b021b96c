import OptnWallet.Library.BTreeMap
import OptnWallet.Library.Words

/-
  The registry of fusion rounds that can be cancelled.  An id is prepared, a round is acquired from
  what was prepared, and is registered until it is dropped.

  Main declarations:
    * `RoundCancel.prepareRound`, `acquireRound` and `lookUp`
    * `RoundCancel.step`
    * `RoundCancel.Consistent`
    * `RoundCancel.cancellation_law`
-/

namespace OptnWallet.RoundCancel

--- The Registry

def maxRegisteredRounds : Nat := 64
def maxRoundIdLen : Nat := 128

/- Five minutes, in nanoseconds. -/
def preparedRoundTtl : Nat := 300 * 10 ^ 9

/- Each flag is a channel of its own, numbered in the order in which they were made. -/
structure RoundEntry where
  flag : Nat
  preparedAt : Nat
  running : Bool
deriving DecidableEq

structure RoundRegistration where
  roundId : List UInt8
  flag : Nat
deriving DecidableEq

def validRoundId (roundId : List UInt8) : Bool :=
  !roundId.isEmpty && decide (roundId.length ≤ maxRoundIdLen) && roundId.all
      (fun byte =>
        decide (0x30 ≤ byte ∧ byte ≤ 0x39) || decide (0x41 ≤ byte ∧ byte ≤ 0x5a) ||
          decide (0x61 ≤ byte ∧ byte ≤ 0x7a) || byte == 0x2d || byte == 0x5f)

abbrev RoundMap := BTreeMap (List UInt8) RoundEntry

def kept (now : Nat) (entry : RoundEntry) : Bool :=
  entry.running || decide (now - entry.preparedAt ≤ preparedRoundTtl)

def purgeExpiredPrepared (now : Nat) (map : RoundMap) : RoundMap :=
  { entries := map.entries.filter (fun entry => kept now entry.2)
    sorted := map.sorted.filter _ }

def prepareRound (roundId : List UInt8) (now preparedAt flag : Nat) (map : RoundMap) :
    Except String Unit × RoundMap :=
  if !validRoundId roundId then (.error "invalid fusion round id", map)
  else
    let map := purgeExpiredPrepared now map
    if (map.get? roundId).isSome then (.error "fusion round id is already prepared", map)
    else if maxRegisteredRounds ≤ map.entries.length then
      (.error "too many prepared fusion rounds", map)
    else (.ok (), map.insert roundId { flag, preparedAt, running := false })

def acquireRound (roundId : List UInt8) (now : Nat) (map : RoundMap) :
    Except String RoundRegistration × RoundMap :=
  let map := purgeExpiredPrepared now map
  match map.get? roundId with
  | none => (.error "fusion round was not prepared", map)
  | some entry =>
    if entry.running then (.error "fusion round is already running", map)
    else (.ok { roundId, flag := entry.flag },
        map.insert roundId { flag := entry.flag, preparedAt := entry.preparedAt, running := true })

/- What a cancel does under the lock. The flag is set after it. -/
def lookUp (roundId : List UInt8) (map : RoundMap) : Option Nat × RoundMap :=
  match map.get? roundId with
  | none => (none, map)
  | some entry => (some entry.flag, if entry.running then map else map.remove roundId)

--- Interleavings

/- The registry, the flags that were made, looked up and set, and the rounds that run. -/
structure Rounds where
  map : RoundMap
  flags : Nat
  lookedUp : List Nat
  cancelled : List Nat
  registrations : List RoundRegistration

def initial : Rounds :=
  { map := BTreeMap.new, flags := 0, lookedUp := [], cancelled := [], registrations := [] }

inductive Event where
  | prepare (roundId : List UInt8) (now preparedAt : Nat)
  | acquire (roundId : List UInt8) (now : Nat)
  | lookUp (roundId : List UInt8)
  | cancel (flag : Nat)
  | drop (registration : RoundRegistration)
deriving DecidableEq

/- Only a flag that was looked up is set, and only a registration that is held is dropped. -/
def step (rounds : Rounds) : Event → Rounds
  | .prepare roundId now preparedAt =>
    { rounds with
      map := (prepareRound roundId now preparedAt rounds.flags rounds.map).2
      flags := rounds.flags + 1 }
  | .acquire roundId now =>
    { rounds with
      map := (acquireRound roundId now rounds.map).2
      registrations :=
        match (acquireRound roundId now rounds.map).1 with
        | .ok registration => registration :: rounds.registrations
        | .error _ => rounds.registrations }
  | .lookUp roundId =>
    { rounds with
      map := (lookUp roundId rounds.map).2
      lookedUp := (lookUp roundId rounds.map).1.toList ++ rounds.lookedUp }
  | .cancel flag =>
    { rounds with
      cancelled := if flag ∈ rounds.lookedUp then flag :: rounds.cancelled else rounds.cancelled }
  | .drop registration =>
    if registration ∈ rounds.registrations then
      { rounds with
        map := rounds.map.remove registration.roundId
        registrations := rounds.registrations.erase registration }
    else rounds

def run (rounds : Rounds) (events : List Event) : Rounds := events.foldl step rounds

--- Consistent Registries

variable {map : RoundMap} {roundId : List UInt8} {entry : RoundEntry}

theorem get?_purge {now : Nat} :
    (purgeExpiredPrepared now map).get? roundId = some entry ↔
      map.get? roundId = some entry ∧ kept now entry = true := by
  unfold purgeExpiredPrepared
  rw [BTreeMap.get?_eq_some_iff, List.mem_filter, BTreeMap.get?_eq_some_iff]

theorem length_remove_le (map : RoundMap) (roundId : List UInt8) :
    (map.remove roundId).entries.length ≤ map.entries.length :=
  List.length_filter_le _ _

/- The flag of an entry is its own, and the rounds that run have the running entries of their ids.
   -/
structure Consistent (map : RoundMap) (flags : Nat) (registrations : List RoundRegistration) :
    Prop where
  bounded : map.entries.length ≤ maxRegisteredRounds
  made : ∀ roundId entry, map.get? roundId = some entry → entry.flag < flags
  apart :
    ∀ roundId entry other entry', map.get? roundId = some entry → map.get? other = some entry' →
      entry.flag = entry'.flag → roundId = other
  ids : (registrations.map RoundRegistration.roundId).Nodup
  held :
    ∀ registration ∈ registrations, ∃ entry,
      map.get? registration.roundId = some entry ∧
        entry.running = true ∧ entry.flag = registration.flag

namespace Consistent

variable {flags : Nat} {registrations : List RoundRegistration} {map' : RoundMap}

theorem shrink (hConsistent : Consistent map flags registrations)
    (hLength : map'.entries.length ≤ map.entries.length)
    (hSub : ∀ roundId entry, map'.get? roundId = some entry → map.get? roundId = some entry)
    (hRunning :
      ∀ roundId entry, map.get? roundId = some entry → entry.running = true →
        map'.get? roundId = some entry) : Consistent map' flags registrations where
  bounded := le_trans hLength hConsistent.bounded
  made := by grind [→ made]
  apart := by grind [→ apart]
  ids := hConsistent.ids
  held := by grind [→ held]

theorem purge (hConsistent : Consistent map flags registrations) (now : Nat) :
    Consistent (purgeExpiredPrepared now map) flags registrations := by
  apply hConsistent.shrink (List.length_filter_le _ _)
  · grind [get?_purge]
  · grind [get?_purge, kept]

theorem later (hConsistent : Consistent map flags registrations) :
    Consistent map (flags + 1) registrations where
  bounded := hConsistent.bounded
  made roundId entry hEntry := Nat.lt_succ_of_lt (hConsistent.made roundId entry hEntry)
  apart := hConsistent.apart
  ids := hConsistent.ids
  held := hConsistent.held

/- An id that is not there gets an entry with a flag of its own. -/
theorem prepare (hConsistent : Consistent map flags registrations)
    (hNone : map.get? roundId = none) (hLength : map.entries.length < maxRegisteredRounds)
    (preparedAt : Nat) :
    Consistent
      (map.insert roundId { flag := flags, preparedAt, running := false })
      (flags + 1) registrations where
  bounded := by
    rw [(map.insert_entries_perm _ _).length_eq, map.remove_of_get? hNone]
    exact hLength
  made := by grind [BTreeMap.get?_insert, → made]
  apart := by grind [BTreeMap.get?_insert, → made, → apart]
  ids := hConsistent.ids
  held := by grind [BTreeMap.get?_insert, → held]

/- No round runs yet under the id of an entry that does not run. -/
theorem acquire (hConsistent : Consistent map flags registrations)
    (hEntry : map.get? roundId = some entry) (hIdle : entry.running = false) :
    Consistent
      (map.insert roundId { flag := entry.flag, preparedAt := entry.preparedAt, running := true })
      flags ({ roundId, flag := entry.flag } :: registrations) where
  bounded := by
    rw [(map.insert_entries_perm _ _).length_eq]
    exact (BTreeMap.entries_perm_of_get? hEntry).length_eq ▸ hConsistent.bounded
  made := by grind [BTreeMap.get?_insert, → made]
  apart := by grind [BTreeMap.get?_insert, → apart]
  ids := by
    rw [List.map_cons, List.nodup_cons]
    refine ⟨fun hMem => ?_, hConsistent.ids⟩
    grind [→ held]
  held := by grind [BTreeMap.get?_insert, → held]

/- The other rounds that run are registered under other ids. -/
theorem drop (hConsistent : Consistent map flags registrations) {registration : RoundRegistration}
    (hMem : registration ∈ registrations) :
    Consistent (map.remove registration.roundId) flags (registrations.erase registration) := by
  have hNodup := hConsistent.ids.perm ((List.perm_cons_erase hMem).map _)
  rw [List.map_cons, List.nodup_cons] at hNodup
  constructor
  · exact le_trans (length_remove_le _ _) hConsistent.bounded
  · grind [BTreeMap.get?_remove, → made]
  · grind [BTreeMap.get?_remove, → apart]
  · exact hNodup.2
  · grind [BTreeMap.get?_remove, → held, List.mem_of_mem_erase]

end Consistent

--- Steps

def Rounds.Consistent (rounds : Rounds) : Prop :=
  RoundCancel.Consistent rounds.map rounds.flags rounds.registrations

variable {rounds : Rounds}

theorem consistent_step (hConsistent : rounds.Consistent) (event : Event) :
    (step rounds event).Consistent := by
  cases event with
  | prepare roundId now preparedAt =>
    have hPurged := hConsistent.purge now
    simp only [Rounds.Consistent, step, prepareRound]
    split
    · exact hConsistent.later
    · split
      · exact hPurged.later
      · split
        · exact hPurged.later
        · exact hPurged.prepare (by simp_all) (by omega) preparedAt
  | acquire roundId now =>
    have hPurged := hConsistent.purge now
    simp only [Rounds.Consistent, step, acquireRound]
    cases hEntry : (purgeExpiredPrepared now rounds.map).get? roundId with
    | none => exact hPurged
    | some entry =>
      cases hIdle : entry.running with
      | true => simpa [hIdle] using hPurged
      | false => simpa [hIdle] using hPurged.acquire hEntry hIdle
  | lookUp roundId =>
    simp only [Rounds.Consistent, step, lookUp]
    cases hEntry : rounds.map.get? roundId with
    | none => exact hConsistent
    | some entry =>
      cases hIdle : entry.running with
      | true =>
        simp only [hIdle, if_true]
        exact hConsistent
      | false =>
        simp only [hIdle, Bool.false_eq_true, if_false]
        apply hConsistent.shrink (length_remove_le _ _)
        · grind [BTreeMap.get?_remove]
        · grind [BTreeMap.get?_remove]
  | cancel flag => exact hConsistent
  | drop registration =>
    simp only [step]
    split
    · rename_i hMem
      exact hConsistent.drop hMem
    · exact hConsistent

theorem consistent_run (events : List Event) : (run initial events).Consistent := by
  have hInitial : initial.Consistent := by
    have hNone : ∀ roundId, initial.map.get? roundId = none := fun _ => rfl
    constructor
    · exact Nat.zero_le _
    · simp [hNone]
    · simp [hNone]
    · exact List.nodup_nil
    · simp [initial]
  exact
    events.foldlRecOn step hInitial fun _ hConsistent event _ => consistent_step hConsistent event

/- Only its own registration ends a round that runs. -/
theorem running_kept (hConsistent : rounds.Consistent)
    (hEntry : rounds.map.get? roundId = some entry) (hRuns : entry.running = true) (event : Event) :
    (step rounds event).map.get? roundId = some entry ∨
      event = .drop { roundId, flag := entry.flag } := by
  have hHeld := hConsistent.held
  have hPurged : ∀ now, (purgeExpiredPrepared now rounds.map).get? roundId = some entry := by
    grind [get?_purge, kept]
  cases event with
  | prepare other now preparedAt => grind [step, prepareRound, BTreeMap.get?_insert]
  | acquire other now => grind [step, acquireRound, BTreeMap.get?_insert]
  | lookUp other => grind [step, lookUp, BTreeMap.get?_remove]
  | cancel flag => exact .inl hEntry
  | drop registration =>
    rcases registration with ⟨other, flag⟩
    grind [step, BTreeMap.get?_remove]

/- An entry of the next registry has a flag that was made right now, or of an entry before. -/
theorem flag_of_step {event : Event} (hEntry : (step rounds event).map.get? roundId = some entry) :
    entry.flag = rounds.flags ∨
      ∃ old, rounds.map.get? roundId = some old ∧ old.flag = entry.flag := by
  cases event with
  | prepare other now preparedAt => grind [step, prepareRound, BTreeMap.get?_insert, get?_purge]
  | acquire other now => grind [step, acquireRound, BTreeMap.get?_insert, get?_purge]
  | lookUp other => grind [step, lookUp, BTreeMap.get?_remove]
  | cancel flag => exact .inr ⟨entry, hEntry, rfl⟩
  | drop registration => grind [step, BTreeMap.get?_remove]

/- A round is acquired from the entry of its id. -/
theorem registration_of_step {event : Event} {registration : RoundRegistration}
    (hMem : registration ∈ (step rounds event).registrations) :
    registration ∈ rounds.registrations ∨ ∃ entry,
        rounds.map.get? registration.roundId = some entry ∧ entry.flag = registration.flag := by
  cases event with
  | acquire other now => grind [step, acquireRound, get?_purge]
  | drop other => grind [step, List.mem_of_mem_erase]
  | _ => exact .inl hMem

/- No round has the flag, and none will get it. -/
structure Retired (flag : Nat) (rounds : Rounds) : Prop where
  made : flag < rounds.flags
  entries : ∀ roundId entry, rounds.map.get? roundId = some entry → entry.flag ≠ flag
  registrations : ∀ registration ∈ rounds.registrations, registration.flag ≠ flag

theorem Retired.step {flag : Nat} (hRetired : Retired flag rounds) (event : Event) :
    Retired flag (step rounds event) where
  made := lt_of_lt_of_le hRetired.made (by cases event <;> grind [RoundCancel.step])
  entries roundId entry hEntry := by
    rcases flag_of_step hEntry with hFlag | ⟨old, hOld, hFlag⟩
    · exact hFlag ▸ hRetired.made.ne'
    · exact hFlag ▸ hRetired.entries _ _ hOld
  registrations registration hMem := by
    rcases registration_of_step hMem with hOld | ⟨entry, hEntry, hFlag⟩
    · exact hRetired.registrations _ hOld
    · exact hFlag ▸ hRetired.entries _ _ hEntry

/- A flag that was looked up stays so, and one that was set stays set. -/
theorem flags_step (rounds : Rounds) (event : Event) :
    rounds.lookedUp ⊆ (step rounds event).lookedUp ∧
      rounds.cancelled ⊆ (step rounds event).cancelled := by
  cases event <;> grind [step]

theorem flags_run (rounds : Rounds) (events : List Event) :
    rounds.lookedUp ⊆ (run rounds events).lookedUp ∧
      rounds.cancelled ⊆ (run rounds events).cancelled := by
  induction events generalizing rounds with
  | nil => exact ⟨fun _ => id, fun _ => id⟩
  | cons event events ih =>
    have hStep := flags_step rounds event
    have hRest := ih (step rounds event)
    exact ⟨List.Subset.trans hStep.1 hRest.1, List.Subset.trans hStep.2 hRest.2⟩

/-
  A cancel that finds an entry sets its flag, and it stays set, whatever happens in between.  The
  round that runs under the id has that flag.  A prepared entry is removed: no round gets its flag
  any more.
-/
structure Cancels (rounds : Rounds) : Prop where
  bounded : rounds.map.entries.length ≤ maxRegisteredRounds
  kept :
    ∀ roundId entry event, rounds.map.get? roundId = some entry → entry.running = true →
      (step rounds event).map.get? roundId = some entry ∨
        event = .drop { roundId, flag := entry.flag }
  dropped :
    ∀ registration ∈ rounds.registrations, ∀ roundId entry,
      rounds.map.get? roundId = some entry → entry.flag ≠ registration.flag →
        (step rounds (.drop registration)).map.get? roundId = some entry
  running :
    ∀ roundId flag, (lookUp roundId rounds.map).1 = some flag →
      ∀ registration ∈ rounds.registrations,
        registration.roundId = roundId → registration.flag = flag
  prepared :
    ∀ roundId entry, rounds.map.get? roundId = some entry → entry.running = false →
      ∀ later, ∀ registration ∈ (run (step rounds (.lookUp roundId)) later).registrations,
        registration.flag ≠ entry.flag
  set :
    ∀ roundId flag, (lookUp roundId rounds.map).1 = some flag → ∀ between later,
      flag ∈ (run rounds ([.lookUp roundId] ++ between ++ [.cancel flag] ++ later)).cancelled

theorem cancellation_law (events : List Event) : Cancels (run initial events) := by
  have hConsistent := consistent_run events
  generalize run initial events = rounds at hConsistent
  have hHeld := hConsistent.held
  constructor
  · exact hConsistent.bounded
  · exact fun roundId entry event hEntry hRuns => running_kept hConsistent hEntry hRuns event
  · grind [step, BTreeMap.get?_remove]
  · grind [lookUp]
  · intro roundId entry hEntry hIdle later
    have hRetired : Retired entry.flag (step rounds (.lookUp roundId)) := by
      have hApart := hConsistent.apart
      constructor
      · exact hConsistent.made roundId entry hEntry
      · grind [step, lookUp, BTreeMap.get?_remove]
      · grind [step]
    have hStill := later.foldlRecOn step hRetired (fun _ hRetired event _ => hRetired.step event)
    exact hStill.registrations
  · intro roundId flag hLookUp between later
    have hLooked : flag ∈ (step rounds (.lookUp roundId)).lookedUp := by
      simp [step, hLookUp]
    have hStill := (flags_run _ between).1 hLooked
    unfold run at hStill ⊢
    simp only [List.foldl_append, List.foldl_cons, List.foldl_nil]
    apply (flags_run _ later).2
    grind [step]

/- Prepared, cancelled and prepared again, the id gets a flag that is not set. -/
theorem cancelled_id_runs :
    (lookUp [0x61] (run initial [.prepare [0x61] 0 0]).map).1 = some 0 ∧ ∃ registration ∈
          (run initial
              [.prepare [0x61] 0 0, .lookUp [0x61], .cancel 0, .prepare [0x61] 1 1,
                .acquire [0x61] 2]).registrations,
        registration.roundId = [0x61] ∧ registration.flag ∉
            (run initial
                [.prepare [0x61] 0 0, .lookUp [0x61], .cancel 0, .prepare [0x61] 1 1,
                  .acquire [0x61] 2]).cancelled := by
  decide +kernel

end OptnWallet.RoundCancel
