import OptnWallet.Runtime.HdSync.Scope
import OptnWallet.Runtime.WalletSync.Publication

/-
  What the authoritative snapshot only ever gains: stronger evidence, more watched scripts and the
  coverage of an account.  Here the callers take part as well: each refresh holds its lease, and a
  discovery widens it round by round.

  Main declarations:
    * `WalletSyncSystem.step`
    * `Retains`
    * `authoritative_is_monotone`
    * `authoritative_cleared_by_lock`
-/

--- Refreshes

namespace OptnWallet

/- A refresh in flight, with the scan of a discovery. -/
structure Refresh where
  lease : WalletSyncLease
  scan : Option HdAccountScan

/- What a scan watches next is what the lease asks for.  A round that is the last one leaves the
   lease alone. -/
def Refresh.round (codecs : WalletCodecs) (refresh : Refresh) (snapshot : WalletNetworkSnapshot) :
    Refresh :=
  match refresh.scan with
  | none => refresh
  | some scan =>
    match scan.advance codecs snapshot with
    | (scan, .ok false) =>
      match scan.addresses, scan.interests codecs with
      | .ok addresses, .ok interests =>
        { lease := { refresh.lease with addresses, interests }
          scan := some scan }
      | _, _ => { refresh with scan := some scan }
    | (scan, _) => { refresh with scan := some scan }

/- The actor and the refreshes that hold a lease of it. -/
structure WalletSyncSystem where
  driver : AppRuntimeDriver
  refreshes : List Refresh

/- A turn of the actor, a round of a discovery, or the end of a refresh with whatever it found. -/
inductive SystemInput where
  | turn (input : DriverInput)
  | round (index : Nat) (snapshot : WalletNetworkSnapshot)
  | finish (index : Nat) (result : WalletReconciliation) (persist : Persist)
      (checks : PublicationChecks)

/- Only a refresh finishes. -/
def DriverInput.isFinish : DriverInput → Bool
  | .walletSync (.finish _ _ _ _) => true
  | _ => false

namespace WalletSyncSystem

variable (codecs : WalletCodecs)

def new (app : AppState) : WalletSyncSystem :=
  { driver := AppRuntimeDriver.new app, refreshes := [] }

/- The refresh that a reply starts. -/
def started : WalletSyncReply → List Refresh
  | .began (.ok lease) => [ { lease, scan := none } ]
  | .scanning (.ok (lease, scan)) => [ { lease, scan := some scan } ]
  | _ => []

def step (system : WalletSyncSystem) : SystemInput → WalletSyncSystem
  | .turn input =>
    if input.isFinish then system
    else
      { driver := system.driver.turn codecs input
        refreshes := system.refreshes ++ started (system.driver.reply codecs input) }
  | .round index snapshot =>
    { system with
      refreshes := system.refreshes.modify index (fun refresh => refresh.round codecs snapshot) }
  | .finish index result persist checks =>
    match system.refreshes[index]? with
    | none => system
    | some refresh =>
      { driver :=
          system.driver.turn codecs (.walletSync (.finish refresh.lease result persist checks))
        refreshes := system.refreshes.eraseIdx index }

def run (app : AppState) (inputs : List SystemInput) : WalletSyncSystem :=
  inputs.foldl (step codecs) (new app)

end WalletSyncSystem

--- The Order Of Snapshots

/- The later snapshot is no weaker, watches no less and does not lose the account. -/
structure Strengthens (earlier later : ReconciledSnapshot WalletNetworkSnapshot) : Prop where
  evidence : evidenceStrength earlier.evidence ≤ evidenceStrength later.evidence
  scripts : earlier.value.interests ⊆ later.value.interests
  account : earlier.value.hd.isSome = true → later.value.hd.isSome = true

theorem Strengthens.refl (snapshot : ReconciledSnapshot WalletNetworkSnapshot) :
    Strengthens snapshot snapshot := ⟨UInt8.le_refl _, List.Subset.refl _, id⟩

theorem Strengthens.trans {first second third : ReconciledSnapshot WalletNetworkSnapshot}
    (hFirst : Strengthens first second) (hSecond : Strengthens second third) :
    Strengthens first third :=
  ⟨UInt8.le_trans hFirst.evidence hSecond.evidence,
    List.Subset.trans hFirst.scripts hSecond.scripts,
    fun hHd => hSecond.account (hFirst.account hHd)⟩

/- A snapshot is replaced by one that strengthens it, and never dropped. -/
def Retains (earlier later : WalletReconciliation) : Prop :=
  ∀ snapshot,
    earlier.authoritative = some snapshot →
      ∃ snapshot', later.authoritative = some snapshot' ∧ Strengthens snapshot snapshot'

theorem Retains.of_eq {earlier later : WalletReconciliation}
    (hSame : later.authoritative = earlier.authoritative) : Retains earlier later := by
  intro snapshot hSnapshot
  refine ⟨snapshot, ?_, Strengthens.refl snapshot⟩
  rw [hSame, hSnapshot]

theorem Retains.of_none {earlier later : WalletReconciliation}
    (hNone : earlier.authoritative = none) : Retains earlier later := by
  intro snapshot hSnapshot
  rw [hNone] at hSnapshot
  cases hSnapshot

theorem Retains.trans {first second third : WalletReconciliation} (hFirst : Retains first second)
    (hSecond : Retains second third) : Retains first third := by
  intro snapshot hSnapshot
  rcases hFirst snapshot hSnapshot with ⟨snapshot', hSnapshot', hStrengthens⟩
  rcases hSecond snapshot' hSnapshot' with ⟨snapshot'', hSnapshot'', hStrengthens'⟩
  exact ⟨snapshot'', hSnapshot'', hStrengthens.trans hStrengthens'⟩

--- Operations Of The Session

namespace WalletSyncSession

variable {codecs : WalletCodecs} {session session' : WalletSyncSession} {app app' : AppState}
variable {lease : WalletSyncLease}

/- The lease asks for no less than what is known. -/
def Covers (lease : WalletSyncLease) (state : WalletReconciliation) : Prop :=
  ∀ snapshot, state.authoritative = some snapshot → snapshot.value.interests ⊆ lease.interests

/- A new lease covers the snapshot, with the scripts of the addresses that were asked for. -/
theorem begin_covers {addresses : List String}
    (hBegin : session.begin codecs app addresses = .ok (session', lease)) :
    session'.state.authoritative = session.state.authoritative ∧
    Covers lease session.state ∧
    ∀ interest ∈ lease.interests,
      ∃ script,
        interest = .script script ∧ ∃ listed ∈ addresses,
            ∃ parsed, codecs.decodeAddress listed = .ok parsed ∧ parsed.scriptPubkey = script := by
  unfold begin at hBegin
  split at hBegin
  · cases hBegin
  rcases StagedUpdate.bind_eq_ok_iff.mp hBegin with ⟨watched, hWatched, hBegin⟩
  rcases StagedUpdate.bind_eq_ok_iff.mp hBegin with ⟨receive, -, hBegin⟩
  rw [StagedUpdate.mapError_eq_ok_iff] at hWatched
  split at hBegin
  · cases hBegin
  split at hBegin
  · cases hBegin
  rename_i hCovered
  cases hBegin
  refine ⟨rfl, ?_, ?_⟩
  · intro snapshot hSnapshot interest hInterest
    rw [hSnapshot, Option.any_some, List.any_eq_true] at hCovered
    dsimp only
    rw [List.mem_map]
    cases hScript : interest.script? with
    | none =>
      apply absurd _ hCovered
      refine ⟨interest, hInterest, ?_⟩
      unfold omitted
      rw [hScript]
    | some script =>
      refine ⟨script, ?_, ?_⟩
      · rw [BTreeMap.mem_keys_iff]
        by_contra hMissing
        apply hCovered
        refine ⟨interest, hInterest, ?_⟩
        unfold omitted
        rw [hScript]
        dsimp only
        rw [Option.isNone_iff_eq_none, Option.eq_none_iff_forall_ne_some]
        intro address hFound
        exact hMissing ⟨address, hFound⟩
      · cases interest with
        | script watched' =>
          cases hScript
          rfl
        | outpoint txid vout => cases hScript
        | rpaPrefix text => cases hScript
  · intro interest hInterest
    rcases List.mem_map.mp hInterest with ⟨script, hKey, rfl⟩
    refine ⟨script, rfl, ?_⟩
    rcases BTreeMap.mem_keys_iff.mp hKey with ⟨address, hFound⟩
    rcases WalletNetworkSnapshot.walletScripts_displays hWatched hFound with
      ⟨listed, hListed, parsed, hDecode, hParsed, -⟩
    exact ⟨listed, hListed, parsed, hDecode, hParsed⟩

/- The lease of a discovery asks for what its scan watches. -/
theorem beginHd_covers {xpub : String} {limits : HdSyncLimits} {scan : HdAccountScan}
    (hBegin : session.beginHd codecs app xpub limits = .ok (session', lease, scan)) :
    session'.state.authoritative = session.state.authoritative ∧
    Covers lease session.state ∧
    HdAccountScan.Sound scan ∧
    ∀ interest ∈ lease.interests,
      ∃ script, interest = .script script ∧ scan.Watches codecs script := by
  unfold beginHd at hBegin
  split at hBegin
  · cases hBegin
  split at hBegin
  · cases hBegin
  split at hBegin
  · cases hBegin
  rcases StagedUpdate.bind_eq_ok_iff.mp hBegin with ⟨account, -, hBegin⟩
  rcases StagedUpdate.bind_eq_ok_iff.mp hBegin with ⟨required, -, hBegin⟩
  rcases StagedUpdate.bind_eq_ok_iff.mp hBegin with ⟨scan', hScan, hBegin⟩
  rcases StagedUpdate.bind_eq_ok_iff.mp hBegin with ⟨addresses, hAddresses, hBegin⟩
  rcases StagedUpdate.bind_eq_ok_iff.mp hBegin with ⟨⟨next, lease'⟩, hNext, hBegin⟩
  cases hBegin
  rw [StagedUpdate.mapError_eq_ok_iff] at hScan hAddresses hNext
  rcases begin_covers hNext with ⟨hSame, hCovers, hScripts⟩
  refine ⟨hSame, hCovers, (HdAccountScan.new_sound hScan).1, ?_⟩
  intro interest hInterest
  rcases hScripts interest hInterest with ⟨script, hScript, listed, hListed, hDecodes⟩
  rcases (HdAccountScan.mem_addresses_iff hAddresses).mp hListed with
    ⟨branch, preview, hPreview, rfl⟩
  exact ⟨script, hScript, branch, preview, hPreview, hDecodes⟩

/- An accepted candidate is no weaker than what it replaces. -/
theorem reconcileCandidate_strength {state next : WalletReconciliation}
    {candidate : WalletNetworkSnapshot} {source : SourceId} {evidence : Evidence}
    {chainTip : Option (UInt32 × TxId)}
    (hReconcile :
      state.reconcileCandidate candidate source evidence chainTip true = (next, .accepted))
    {snapshot : ReconciledSnapshot WalletNetworkSnapshot}
    (hSnapshot : state.authoritative = some snapshot) :
    evidenceStrength snapshot.evidence ≤ evidenceStrength evidence := by
  unfold ReconciliationState.reconcileCandidate at hReconcile
  rw [if_neg (by simp), hSnapshot, Option.any_some] at hReconcile
  split at hReconcile
  · cases hReconcile
  · rename_i hStronger
    rw [decide_eq_true_eq] at hStronger
    exact UInt8.not_lt.mp hStronger

variable {persist : Persist} {checks : PublicationChecks}

/- Only the end that is accepted changes the snapshot. -/
theorem publishCandidate_state {snapshot : WalletNetworkSnapshot} {next : WalletReconciliation}
    (hNext : Retains session.state next) :
    Retains session.state
      (publishCandidate codecs { session with active := none } app lease snapshot next persist
            checks).1.1.state := by
  unfold publishCandidate
  split
  · exact Retains.of_eq rfl
  split
  · exact Retains.of_eq rfl
  split
  · exact Retains.of_eq rfl
  split
  · exact Retains.of_eq rfl
  · exact hNext

/- A finish under a lease that covers the snapshot. -/
theorem finish_retains (result : WalletReconciliation)
    (hCovers : session.active = some lease.id → Covers lease session.state) :
    Retains session.state (session.finish codecs app lease result persist checks).1.1.state := by
  unfold finish
  split
  · exact Retains.of_eq rfl
  rename_i hCurrent
  rw [not_not] at hCurrent
  split
  · exact Retains.of_eq rfl
  dsimp only
  split
  · exact Retains.of_eq rfl
  rename_i candidate hCandidate
  split
  · exact Retains.of_eq rfl
  rename_i hAccount
  split
  · exact Retains.of_eq rfl
  rename_i hScope
  split
  · rename_i next hReconcile
    apply publishCandidate_state
    intro snapshot hSnapshot
    refine ⟨_, (ReconciliationState.reconcileCandidate_accepted hReconcile).1, ?_, ?_, ?_⟩
    · exact reconcileCandidate_strength hReconcile hSnapshot
    · rw [not_or, not_not] at hScope
      dsimp only
      rw [hScope.1]
      exact hCovers hCurrent snapshot hSnapshot
    · intro hHd
      rw [hSnapshot, Option.any_some, hHd, and_iff_left rfl, Option.isNone_iff_eq_none, ← ne_eq,
        Option.ne_none_iff_isSome] at hAccount
      exact hAccount
  · rename_i next decision hRejected hReconcile
    apply Retains.of_eq
    exact (ReconciliationState.reconcileCandidate_preserved hReconcile hRejected).1

end WalletSyncSession

--- Turns Of The Actor

/- The events after which there is another session. -/
def AppEvent.isReset : AppEvent → Bool
  | .walletOpened | .walletLocked | .networkChanged _ => true
  | .serversChanged | .walletRebuilt | .coinsChanged | .noticeChanged | .other => false

def DriverInput.isReset : DriverInput → Bool
  | .event _ published _ => published.isReset
  | .walletSync _ => false
  | .annotate _ _ _ => false
  | .abandoned => false

namespace AppRuntimeDriver

open WalletSyncSession

variable {codecs : WalletCodecs}

theorem publish_authoritative {session : WalletSyncSession} {app : AppState} {event : AppEvent}
    {restored : Option WalletCheckpoint} {driver' : AppRuntimeDriver}
    (hKept : event.isReset = false)
    (hPublish : publish codecs session app event restored = some driver') :
    driver'.walletSync.state.authoritative = session.state.authoritative := by
  unfold publish at hPublish
  rcases Option.bind_eq_some_iff.mp hPublish with ⟨⟨next, app'⟩, hNext, hPublish⟩
  cases hPublish
  unfold restoreOpened at hNext
  split at hNext
  · cases hNext
    cases event with
    | walletOpened => cases hKept
    | walletLocked => cases hKept
    | networkChanged network => cases hKept
    | serversChanged => rfl
    | walletRebuilt => rfl
    | coinsChanged => rfl
    | noticeChanged => rfl
    | other => rfl
  · rename_i checkpoint hRestored
    rcases Option.filter_eq_some_iff.mp hRestored with ⟨-, hOpened⟩
    have hEvent := of_decide_eq_true hOpened
    subst hEvent
    cases hKept

theorem handle_retains (driver : AppRuntimeDriver) (request : WalletSyncRequest)
    (hCovers : ∀ lease result persist checks,
        request = .finish lease result persist checks → driver.walletSync.active = some lease.id →
          WalletSyncSession.Covers lease driver.walletSync.state) :
    Retains driver.walletSync.state (driver.handle codecs request).1.walletSync.state := by
  cases request with
  | checkpoint => exact Retains.of_eq rfl
  | restore checkpoint =>
    unfold handle
    dsimp only
    split
    · exact Retains.of_eq rfl
    rename_i hUntouched
    rw [not_or, not_or, Option.not_isSome_iff_eq_none, Option.not_isSome_iff_eq_none] at hUntouched
    exact Retains.of_none hUntouched.2.1
  | beginHd xpub limits =>
    unfold handle
    dsimp only
    split
    · exact Retains.of_eq rfl
    · exact Retains.of_eq rfl
    · rename_i session lease scan hBegin
      exact Retains.of_eq (beginHd_covers hBegin).1
  | begin addresses =>
    unfold handle
    dsimp only
    split
    · exact Retains.of_eq rfl
    split
    · exact Retains.of_eq rfl
    · rename_i session lease hBegin
      exact Retains.of_eq (begin_covers hBegin).1
  | finish lease result persist checks =>
    exact finish_retains result (hCovers lease result persist checks rfl)
  | invalidate reason => exact Retains.of_eq rfl

/- A turn keeps the snapshot or strengthens it, unless there is another session. -/
theorem turn_retains (driver : AppRuntimeDriver) {input : DriverInput}
    (hKept : input.isReset = false)
    (hCovers : ∀ lease result persist checks,
        input = .walletSync (.finish lease result persist checks) →
          driver.walletSync.active = some lease.id →
          WalletSyncSession.Covers lease driver.walletSync.state) :
    Retains driver.walletSync.state (driver.turn codecs input).walletSync.state := by
  cases input with
  | walletSync request =>
    apply handle_retains
    rintro lease result persist checks rfl
    exact hCovers lease result persist checks rfl
  | event app event restored =>
    unfold turn step
    dsimp only
    split
    · exact Retains.of_eq rfl
    · rename_i driver' hPublish
      exact Retains.of_eq (publish_authoritative hKept hPublish)
  | annotate app persist checks =>
    unfold turn step
    dsimp only
    split
    · exact Retains.of_eq rfl
    rename_i driver' hPublish
    apply Retains.of_eq
    unfold persistAnnotation at hPublish
    split at hPublish
    · rw [publish_authoritative rfl hPublish]
    · rw [publish_authoritative rfl hPublish]
      rfl
  | abandoned => exact Retains.of_eq rfl

end AppRuntimeDriver

--- Refreshes In Flight

open WalletSyncSession

/-
  A refresh in flight was issued a lease, covers the snapshot while it is current, and asks for no
  more than what its scan watches.
-/
structure InFlight (codecs : WalletCodecs) (session : WalletSyncSession) (refresh : Refresh) :
    Prop where
  issued : refresh.lease.id < session.issued
  covers :
    session.active = some refresh.lease.id → WalletSyncSession.Covers refresh.lease session.state
  watches :
    ∀ scan,
    refresh.scan = some scan → HdAccountScan.Sound scan ∧
        ∀ interest ∈ refresh.lease.interests,
          ∃ script, interest = .script script ∧ scan.Watches codecs script

variable {codecs : WalletCodecs} {refresh : Refresh}

/- A round only widens what the lease asks for. -/
theorem InFlight.round {session : WalletSyncSession} (hInFlight : InFlight codecs session refresh)
    (snapshot : WalletNetworkSnapshot) :
    InFlight codecs session (refresh.round codecs snapshot) := by
  unfold Refresh.round
  split
  · exact hInFlight
  rename_i scan hScan
  rcases hInFlight.watches scan hScan with ⟨hSound, hWatches⟩
  have hNext :
      ∀ interest ∈ refresh.lease.interests,
      ∃ script,
        interest = .script script ∧ (scan.advance codecs snapshot).1.Watches codecs script := by
    intro interest hInterest
    rcases hWatches interest hInterest with ⟨script, hScript, hWatched⟩
    exact ⟨script, hScript, hWatched.advance hSound snapshot⟩
  have hSound' : HdAccountScan.Sound (scan.advance codecs snapshot).1 :=
    hSound.of_grows (HdAccountScan.advance_answers codecs hSound snapshot).1
  rcases hAdvance : scan.advance codecs snapshot with ⟨next, result⟩
  rw [hAdvance] at hNext hSound'
  dsimp only at hNext hSound' ⊢
  have hKept : InFlight codecs session { refresh with scan := some next } := by
    refine ⟨hInFlight.issued, hInFlight.covers, ?_⟩
    rintro _ ⟨⟩
    exact ⟨hSound', hNext⟩
  split
  · rename_i next' hPair
    cases hPair
    split
    · rename_i addresses interests hAddresses hInterests
      refine ⟨hInFlight.issued, ?_, ?_⟩
      · intro hActive known hKnown interest hInterest
        rw [HdAccountScan.mem_interests_iff hInterests]
        apply hNext
        exact hInFlight.covers hActive known hKnown hInterest
      · rintro _ ⟨⟩
        refine ⟨hSound', ?_⟩
        intro interest hInterest
        exact (HdAccountScan.mem_interests_iff hInterests).mp hInterest
    · exact hKept
  · rename_i next' result' hOther hPair
    cases hPair
    exact hKept

/- A session without a current lease has nothing to cover. -/
theorem InFlight.ended {session session' : WalletSyncSession}
    (hInFlight : InFlight codecs session refresh) (hActive : session'.active = none)
    (hIssued : session'.issued = session.issued) : InFlight codecs session' refresh := by
  refine ⟨?_, ?_, hInFlight.watches⟩
  · rw [hIssued]
    exact hInFlight.issued
  · intro hCurrent
    rw [hActive] at hCurrent
    cases hCurrent

variable {driver : AppRuntimeDriver}

open AppRuntimeDriver in
/- An older refresh stays in flight, whatever the turn is. -/
theorem InFlight.turn (hInFlight : InFlight codecs driver.walletSync refresh)
    (input : DriverInput) : InFlight codecs (driver.turn codecs input).walletSync refresh := by
  have hTurn := step_turn codecs driver input
  unfold AppRuntimeDriver.turn
  cases hTurn with
  | kept hSession hReply hEnds =>
    rw [hSession]
    exact hInFlight
  | began lease hBegan hReply =>
    refine ⟨?_, ?_, hInFlight.watches⟩
    · have hIssued := hInFlight.issued
      rw [hBegan.issued]
      omega
    · intro hCurrent
      have hIssued := hInFlight.issued
      rw [hBegan.active, Option.some_inj, hBegan.id] at hCurrent
      omega
  | ended hEnded hReply => exact hInFlight.ended hEnded.active hEnded.issued
  | accepted lease result persist checks snapshot hInput hReply
      hActive hIssued hState hCoins =>
      exact hInFlight.ended hActive hIssued

open AppRuntimeDriver in
/- A refresh that a request starts is in flight after it. -/
theorem started_inFlight {request : WalletSyncRequest}
    (hStarted : refresh ∈ WalletSyncSystem.started (driver.handle codecs request).2) :
    InFlight codecs (driver.handle codecs request).1.walletSync refresh := by
  cases request with
  | checkpoint => cases hStarted
  | restore checkpoint =>
    unfold handle at hStarted
    dsimp only at hStarted
    split at hStarted
    · cases hStarted
    split at hStarted
    · cases hStarted
    split at hStarted
    · cases hStarted
    · cases hStarted
  | beginHd xpub limits =>
    revert hStarted
    unfold handle
    dsimp only
    split
    · rintro ⟨⟩
    · rintro ⟨⟩
    rename_i session lease scan hBegin
    intro hStarted
    cases List.mem_singleton.mp hStarted
    have hBegan := beginHd_began hBegin
    rcases beginHd_covers hBegin with ⟨hSame, hCovers, hSound, hWatches⟩
    refine ⟨?_, ?_, ?_⟩
    · change lease.id < session.issued
      rw [hBegan.id, hBegan.issued]
      omega
    · intro _ known hKnown
      apply hCovers
      rw [← hSame]
      exact hKnown
    · rintro _ ⟨⟩
      exact ⟨hSound, hWatches⟩
  | begin addresses =>
    revert hStarted
    unfold handle
    dsimp only
    split
    · rintro ⟨⟩
    split
    · rintro ⟨⟩
    rename_i session lease hBegin
    intro hStarted
    cases List.mem_singleton.mp hStarted
    have hBegan := begin_began hBegin
    rcases begin_covers hBegin with ⟨hSame, hCovers, -⟩
    refine ⟨?_, ?_, ?_⟩
    · change lease.id < session.issued
      rw [hBegan.id, hBegan.issued]
      omega
    · intro _ known hKnown
      apply hCovers
      rw [← hSame]
      exact hKnown
    · rintro _ ⟨⟩
  | finish lease result persist checks => cases hStarted
  | invalidate reason => cases hStarted

/- Other inputs start nothing. -/
theorem started_of_input {input : DriverInput}
    (hStarted : refresh ∈ WalletSyncSystem.started (driver.reply codecs input)) :
    InFlight codecs (driver.turn codecs input).walletSync refresh := by
  cases input with
  | walletSync request => exact started_inFlight hStarted
  | event app event restored =>
    unfold AppRuntimeDriver.reply AppRuntimeDriver.step at hStarted
    dsimp only at hStarted
    split at hStarted
    · cases hStarted
    · cases hStarted
  | annotate app persist checks =>
    unfold AppRuntimeDriver.reply AppRuntimeDriver.step at hStarted
    dsimp only at hStarted
    split at hStarted
    · cases hStarted
    · cases hStarted
  | abandoned => cases hStarted

namespace WalletSyncSystem

/- Every refresh of the system is in flight. -/
def Valid (codecs : WalletCodecs) (system : WalletSyncSystem) : Prop :=
  ∀ refresh ∈ system.refreshes, InFlight codecs system.driver.walletSync refresh

variable {system : WalletSyncSystem}

theorem Valid.step (hValid : Valid codecs system) (input : SystemInput) :
    Valid codecs (system.step codecs input) := by
  cases input with
  | turn input =>
    unfold WalletSyncSystem.step
    dsimp only
    split
    · exact hValid
    intro refresh hRefresh
    rcases List.mem_append.mp hRefresh with hOld | hNew
    · exact (hValid refresh hOld).turn input
    · exact started_of_input hNew
  | round index snapshot =>
    intro refresh hRefresh
    change refresh ∈
      system.refreshes.modify index (fun refresh => refresh.round codecs snapshot) at hRefresh
    rcases List.mem_iff_getElem?.mp hRefresh with ⟨i, hAt⟩
    rw [List.getElem?_modify] at hAt
    rcases Option.map_eq_some_iff.mp hAt with ⟨before, hBefore, rfl⟩
    have hOld := hValid before (List.mem_of_getElem? hBefore)
    split
    · exact hOld.round snapshot
    · exact hOld
  | finish index result persist checks =>
    unfold WalletSyncSystem.step
    dsimp only
    split
    · exact hValid
    intro refresh hRefresh
    exact (hValid refresh (List.mem_of_mem_eraseIdx hRefresh)).turn _

def isReset : SystemInput → Bool
  | .turn input => input.isReset
  | .round _ _ => false
  | .finish _ _ _ _ => false

theorem step_retains (hValid : Valid codecs system) {input : SystemInput}
    (hKept : isReset input = false) :
    Retains system.driver.walletSync.state (system.step codecs input).driver.walletSync.state := by
  cases input with
  | turn input =>
    unfold WalletSyncSystem.step
    dsimp only
    split
    · exact Retains.of_eq rfl
    rename_i hOther
    apply AppRuntimeDriver.turn_retains _ hKept
    rintro lease result persist checks rfl
    exact absurd rfl hOther
  | round index snapshot => exact Retains.of_eq rfl
  | finish index result persist checks =>
    unfold WalletSyncSystem.step
    dsimp only
    split
    · exact Retains.of_eq rfl
    rename_i refresh hRefresh
    apply AppRuntimeDriver.turn_retains _ rfl
    rintro lease result' persist' checks' hFinish hActive
    cases hFinish
    exact (hValid refresh (List.mem_of_getElem? hRefresh)).covers hActive

/- By induction over the inputs. -/
theorem Valid.run (hValid : Valid codecs system) (inputs : List SystemInput) :
    Valid codecs (inputs.foldl (WalletSyncSystem.step codecs) system) := by
  induction inputs generalizing system with
  | nil => exact hValid
  | cons input inputs ih => exact ih (hValid.step input)

/- By induction over the inputs. -/
theorem Valid.retains (hValid : Valid codecs system) {inputs : List SystemInput}
    (hKept : ∀ input ∈ inputs, isReset input = false) :
    Retains system.driver.walletSync.state
      (inputs.foldl (WalletSyncSystem.step codecs) system).driver.walletSync.state := by
  induction inputs generalizing system with
  | nil => exact Retains.of_eq rfl
  | cons input inputs ih =>
    rw [List.forall_mem_cons] at hKept
    have hHere := step_retains hValid hKept.1
    exact hHere.trans (ih (hValid.step input) hKept.2)

theorem valid_new (app : AppState) : Valid codecs (new app) := by
  intro refresh hRefresh
  cases hRefresh

/-
  From any state of any run on, while the session is neither opened, locked nor moved to another
  network: a snapshot is there to stay, and what replaces it has no weaker evidence, watches all
  of its scripts and keeps the account.
-/
theorem authoritative_is_monotone (codecs : WalletCodecs) (app : AppState)
    (earlier later : List SystemInput) (hKept : ∀ input ∈ later, isReset input = false) :
    Retains (run codecs app earlier).driver.walletSync.state
      (run codecs app (earlier ++ later)).driver.walletSync.state := by
  unfold run
  rw [List.foldl_append]
  exact ((valid_new app).run earlier).retains hKept

--- A Watched Address

open AppRuntimeDriver HdAccountScan

/- The first refresh in flight finds a payment. -/
def finishFirst (result : WalletReconciliation) : SystemInput :=
  .finish 0 result (fun _ _ => .ok ())
    { onReceipt := true, beforePersistence := true, afterPersistence := true }

def receiveRun : List SystemInput := [.turn beginReceive, finishFirst receiveResult]

/- A second refresh that is not answered as well keeps what the first one found. -/
theorem authoritative_is_monotone_receive :
    (run knownCodecs watchedApp receiveRun).driver.walletSync.state.authoritative.isSome = true ∧
    Retains (run knownCodecs watchedApp receiveRun).driver.walletSync.state
      (run knownCodecs watchedApp
        (receiveRun ++
          [.turn beginReceive, finishFirst ReconciliationState.new])).driver.walletSync.state := by
  refine ⟨by decide +kernel, ?_⟩
  apply authoritative_is_monotone
  decide +kernel

/- Locking the wallet drops the snapshot. -/
theorem authoritative_cleared_by_lock :
    ¬ Retains (run knownCodecs watchedApp receiveRun).driver.walletSync.state
        (run knownCodecs watchedApp
            (receiveRun ++ [.turn
                (.event { watchedApp with wallet := none } .walletLocked
                  none)])).driver.walletSync.state := by
  intro hRetains
  have hSome :
      (run knownCodecs watchedApp receiveRun).driver.walletSync.state.authoritative.isSome =
        true := by
    decide +kernel
  have hNone :
      (run knownCodecs watchedApp
            (receiveRun ++ [.turn
                (.event { watchedApp with wallet := none } .walletLocked
                  none)])).driver.walletSync.state.authoritative =
        none := by
    decide +kernel
  rcases Option.isSome_iff_exists.mp hSome with ⟨snapshot, hSnapshot⟩
  rcases hRetains snapshot hSnapshot with ⟨later, hLater, -⟩
  rw [hNone] at hLater
  cases hLater

end WalletSyncSystem

end OptnWallet
