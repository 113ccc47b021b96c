import OptnWallet.Runtime.WalletSync

/-
  Who publishes: only the lease that was issued last, and only until something ends it.  Coins are
  fresh after a refresh that was accepted, and until the state changes again.

  Main declarations:
    * `WalletSyncSession.Finished` and `finish_finished`
    * `AppRuntimeDriver.Turn` and `step_turn`
    * `only_current_lease_publishes`
-/

--- Sessions

namespace OptnWallet

open StagedUpdate

namespace WalletSyncSession

variable {codecs : WalletCodecs} {session session' : WalletSyncSession} {app app' : AppState}
variable {lease : WalletSyncLease}

/- No lease is current and nothing is fresh. -/
structure Ended (session session' : WalletSyncSession) : Prop where
  active : session'.active = none
  issued : session'.issued = session.issued
  stale : session'.coinsAreFresh = false

theorem ended_invalidate (session : WalletSyncSession) (reason : String) :
    Ended session (session.invalidate reason) := by
  constructor
  · rfl
  · rfl
  · rfl

/- The events that end every lease. -/
def endingEvent : AppEvent → Bool
  | .walletOpened | .walletLocked | .networkChanged _ | .serversChanged | .walletRebuilt => true
  | .coinsChanged | .noticeChanged | .other => false

variable {event : AppEvent}

theorem ended_onEvent (hEnding : endingEvent event = true) :
    Ended session (session.onEvent event) := by
  cases event with
  | walletOpened => exact ⟨rfl, rfl, rfl⟩
  | walletLocked => exact ⟨rfl, rfl, rfl⟩
  | networkChanged network => exact ⟨rfl, rfl, rfl⟩
  | serversChanged => exact ended_invalidate session _
  | walletRebuilt => exact ended_invalidate session _
  | coinsChanged => cases hEnding
  | noticeChanged => cases hEnding
  | other => cases hEnding

theorem onEvent_kept (hOther : endingEvent event = false) : session.onEvent event = session := by
  cases event with
  | walletOpened => cases hOther
  | walletLocked => cases hOther
  | networkChanged network => cases hOther
  | serversChanged => cases hOther
  | walletRebuilt => cases hOther
  | coinsChanged => rfl
  | noticeChanged => rfl
  | other => rfl

/- What was restored is not fresh. -/
theorem installCheckpoint_spec {checkpoint : WalletCheckpoint}
    (hInstall : session.installCheckpoint codecs checkpoint app = some (session', app')) :
    session'.active = session.active ∧
    session'.issued = session.issued ∧
    session'.coinsAreFresh = false := by
  unfold installCheckpoint at hInstall
  rcases Option.bind_eq_some_iff.mp hInstall with ⟨view, -, hInstall⟩
  rcases Option.bind_eq_some_iff.mp hInstall with ⟨wallet, -, hInstall⟩
  rcases Option.bind_eq_some_iff.mp hInstall with ⟨restored, -, hInstall⟩
  cases hInstall
  exact ⟨rfl, rfl, rfl⟩

/- Nobody is told of an annotation that was undone. -/
theorem persistAnnotation_spec {previous : AppState} {persist : Persist}
    {checks : PublicationChecks}
    (hPersist : session.persistAnnotation app previous persist checks = ((session', app'), event)) :
    (session' = session ∧ event = .coinsChanged) ∨
    (Ended session session' ∧ event = .noticeChanged) := by
  unfold persistAnnotation at hPersist
  split at hPersist
  · cases hPersist
    exact Or.inl ⟨rfl, rfl⟩
  · cases hPersist
    exact Or.inr ⟨ended_invalidate session _, rfl⟩

--- Beginning

/- A new lease is the current one, and nothing is fresh. -/
structure Began (session session' : WalletSyncSession) (lease : WalletSyncLease) : Prop where
  id : lease.id = session.issued
  active : session'.active = some lease.id
  issued : session'.issued = session.issued + 1
  stale : session'.coinsAreFresh = false

theorem begin_began {addresses : List String}
    (hBegin : session.begin codecs app addresses = .ok (session', lease)) :
    Began session session' lease := by
  unfold begin at hBegin
  split at hBegin
  · cases hBegin
  rcases bind_eq_ok_iff.mp hBegin with ⟨watched, -, hBegin⟩
  rcases bind_eq_ok_iff.mp hBegin with ⟨receive, -, hBegin⟩
  split at hBegin
  · cases hBegin
  split at hBegin
  · cases hBegin
  · cases hBegin
    exact ⟨rfl, rfl, rfl, rfl⟩

/- Discovery begins a refresh of what the scan watches. -/
theorem beginHd_began {xpub : String} {limits : HdSyncLimits} {scan : HdAccountScan}
    (hBegin : session.beginHd codecs app xpub limits = .ok (session', lease, scan)) :
    Began session session' lease := by
  unfold beginHd at hBegin
  split at hBegin
  · cases hBegin
  split at hBegin
  · cases hBegin
  split at hBegin
  · cases hBegin
  rcases bind_eq_ok_iff.mp hBegin with ⟨account, -, hBegin⟩
  rcases bind_eq_ok_iff.mp hBegin with ⟨required, -, hBegin⟩
  rcases bind_eq_ok_iff.mp hBegin with ⟨scan', -, hBegin⟩
  rcases bind_eq_ok_iff.mp hBegin with ⟨addresses, -, hBegin⟩
  rcases bind_eq_ok_iff.mp hBegin with ⟨⟨next, lease'⟩, hNext, hBegin⟩
  cases hBegin
  rw [mapError_eq_ok_iff] at hNext
  exact begin_began hNext

--- Finishing

/- The coins of a candidate are projected from it. -/
theorem candidateApp_projected {snapshot : WalletNetworkSnapshot} {next : WalletReconciliation}
    (hCandidate : candidateApp codecs app lease snapshot next = .ok app') :
    snapshot.ProjectedCoins codecs lease.addresses app'.coins := by
  unfold candidateApp at hCandidate
  rcases bind_eq_ok_iff.mp hCandidate with ⟨coins, hCoins, hCandidate⟩
  rcases bind_eq_ok_iff.mp hCandidate with ⟨observed, hObserve, hCandidate⟩
  rcases bind_eq_ok_iff.mp hCandidate with ⟨view, -, hCandidate⟩
  cases hCandidate
  rw [mapError_eq_ok_iff] at hCoins
  rw [observeAllocation_coins hObserve]
  exact WalletNetworkSnapshot.reconcileCoins_projected hCoins

/-
  The ends of a refresh: another lease is current; or this one was, and nothing is published; or
  it was, and the coins are those of the new authoritative snapshot.
-/
inductive Finished (codecs : WalletCodecs) (session : WalletSyncSession) (app : AppState)
    (lease : WalletSyncLease) :
    (WalletSyncSession × AppState) × Except WalletSyncError ReconciliationDecision → Prop where
  | other (hOther : session.active ≠ some lease.id) :
      Finished codecs session app lease ((session, app), .error .superseded)
  | failed {session' : WalletSyncSession} {outcome : Except WalletSyncError ReconciliationDecision}
      (hCurrent : session.active = some lease.id)
      (hEnded : Ended session session')
      (hKept : session'.state.authoritative = session.state.authoritative)
      (hOutcome : outcome ≠ .ok .accepted) :
      Finished codecs session app lease ((session', app), outcome)
  | accepted {session' : WalletSyncSession} {app' : AppState}
      {snapshot : ReconciledSnapshot WalletNetworkSnapshot}
      (hCurrent : session.active = some lease.id)
      (hActive : session'.active = none)
      (hIssued : session'.issued = session.issued)
      (hState : session'.state.authoritative = some snapshot)
      (hCoins : snapshot.value.ProjectedCoins codecs lease.addresses app'.coins) :
      Finished codecs session app lease ((session', app'), .ok .accepted)

variable {persist : Persist} {checks : PublicationChecks}

theorem publishCandidate_finished {snapshot : ReconciledSnapshot WalletNetworkSnapshot}
    {next : WalletReconciliation} (hCurrent : session.active = some lease.id)
    (hNext : next.authoritative = some snapshot) :
    Finished codecs session app lease
      (publishCandidate codecs { session with active := none } app
        lease snapshot.value next persist checks) := by
  unfold publishCandidate
  split
  · exact Finished.failed hCurrent ⟨rfl, rfl, rfl⟩ rfl (by simp)
  rename_i candidate hCandidate
  split
  · exact Finished.failed hCurrent ⟨rfl, rfl, rfl⟩ rfl (by simp)
  split
  · exact Finished.failed hCurrent ⟨rfl, rfl, rfl⟩ rfl (by simp)
  split
  · exact Finished.failed hCurrent ⟨rfl, rfl, rfl⟩ rfl (by simp)
  · have hCoins := candidateApp_projected hCandidate
    exact Finished.accepted hCurrent rfl rfl hNext hCoins

theorem finish_finished (result : WalletReconciliation) :
    Finished codecs session app lease (session.finish codecs app lease result persist checks) := by
  unfold finish
  split
  · rename_i hOther
    exact Finished.other hOther
  rename_i hCurrent
  rw [not_not] at hCurrent
  split
  · exact Finished.failed hCurrent ⟨rfl, rfl, rfl⟩ rfl (by simp)
  dsimp only
  split
  · exact Finished.failed hCurrent ⟨rfl, rfl, rfl⟩ rfl (by simp)
  rename_i candidate hCandidate
  split
  · exact Finished.failed hCurrent ⟨rfl, rfl, rfl⟩ rfl (by simp)
  split
  · exact Finished.failed hCurrent ⟨rfl, rfl, rfl⟩ rfl (by simp)
  split
  · rename_i next hReconcile
    exact publishCandidate_finished hCurrent
      (ReconciliationState.reconcileCandidate_accepted hReconcile).1
  · rename_i next decision hRejected hReconcile
    have hKept := ReconciliationState.reconcileCandidate_preserved hReconcile hRejected
    have hEnded :
        Ended session
          { session with
            active := none
            state := next } :=
      ⟨rfl, rfl, hKept.2⟩
    apply Finished.failed hCurrent hEnded hKept.1
    intro hSame
    cases hSame
    exact hRejected rfl

end WalletSyncSession

--- One Turn

/- The lease that a reply hands out. -/
def WalletSyncReply.lease? : WalletSyncReply → Option WalletSyncLease
  | .scanning (.ok (lease, _)) => some lease
  | .began (.ok lease) => some lease
  | _ => none

/- What takes the place of a lease from it, or uses it up. -/
def DriverInput.Ends (id : Nat) : DriverInput → WalletSyncReply → Prop
  | .walletSync (.finish lease _ _ _), _ => lease.id = id
  | .walletSync (.invalidate _), _ => True
  | .event _ published _, .nothing => WalletSyncSession.endingEvent published = true
  | .annotate _ _ _, .annotated .noticeChanged => True
  | .abandoned, _ => True
  | _, _ => False

namespace AppRuntimeDriver

open WalletSyncSession

variable {codecs : WalletCodecs}

/- No history is shown without a snapshot. -/
def Blank (driver : AppRuntimeDriver) : Prop :=
  driver.walletSync.state.authoritative = none → driver.state.walletSync.history = []

theorem blank_publishApp (session : WalletSyncSession) (app : AppState) :
    (publishApp session app).Blank := by
  intro hNone
  change session.state.authoritative = none at hNone
  unfold publishApp projectStatus
  simp only [hNone, Option.isNone_none, if_true]
  rfl

variable {session : WalletSyncSession}

/- Only the status of what is shown changes. -/
theorem history_publishApp {app : AppState}
    (hBlank : session.state.authoritative = none → app.walletSync.history = []) :
    (publishApp session app).state.walletSync.history = app.walletSync.history := by
  unfold publishApp projectStatus
  dsimp only
  cases hState : session.state.authoritative with
  | none =>
    rw [hBlank hState]
    rfl
  | some snapshot => rfl

/-
  What a turn can do to the session: nothing; hand out a lease; leave none; or publish under the
  current one.
-/
inductive Turn (codecs : WalletCodecs) (driver : AppRuntimeDriver) (input : DriverInput)
    (driver' : AppRuntimeDriver) (reply : WalletSyncReply) : Prop where
  | kept (hSession : driver'.walletSync = driver.walletSync) (hReply : reply.lease? = none)
      (hEnds : ∀ id, driver.walletSync.active = some id → ¬ input.Ends id reply)
  | began (lease : WalletSyncLease) (hBegan : Began driver.walletSync driver'.walletSync lease)
      (hReply : reply.lease? = some lease)
  | ended (hEnded : Ended driver.walletSync driver'.walletSync) (hReply : reply.lease? = none)
  | accepted (lease : WalletSyncLease) (result : WalletReconciliation) (persist : Persist)
      (checks : PublicationChecks)
      (snapshot : ReconciledSnapshot WalletNetworkSnapshot)
      (hInput : input = .walletSync (.finish lease result persist checks))
      (hReply : reply = .finished (.ok .accepted))
      (hActive : driver'.walletSync.active = none)
      (hIssued : driver'.walletSync.issued = driver.walletSync.issued)
      (hState : driver'.walletSync.state.authoritative = some snapshot)
      (hCoins : snapshot.value.ProjectedCoins codecs lease.addresses driver'.state.coins)

variable {driver : AppRuntimeDriver} {input : DriverInput}

/- Where a request fails, nothing happened. -/
theorem Turn.unchanged {reply : WalletSyncReply} (hReply : reply.lease? = none)
    (hEnds : ∀ id, ¬ input.Ends id reply) : Turn codecs driver input driver reply :=
  Turn.kept rfl hReply (fun id _ => hEnds id)

variable {driver' : AppRuntimeDriver}

theorem publish_turn {app : AppState} {event : AppEvent} {restored : Option WalletCheckpoint}
    (hPublish : publish codecs session app event restored = some driver') :
    (endingEvent event = false ∧ driver'.walletSync = session) ∨
    (endingEvent event = true ∧ Ended session driver'.walletSync) := by
  unfold publish at hPublish
  rcases Option.bind_eq_some_iff.mp hPublish with ⟨⟨next, app'⟩, hNext, hPublish⟩
  cases hPublish
  unfold restoreOpened at hNext
  split at hNext
  · cases hNext
    cases hEnding : endingEvent event with
    | false => exact Or.inl ⟨rfl, onEvent_kept hEnding⟩
    | true => exact Or.inr ⟨rfl, ended_onEvent hEnding⟩
  · rename_i checkpoint hRestored
    rcases Option.filter_eq_some_iff.mp hRestored with ⟨-, hOpened⟩
    have hEvent := of_decide_eq_true hOpened
    subst hEvent
    rcases installCheckpoint_spec hNext with ⟨hActive, hIssued, hStale⟩
    exact Or.inr ⟨rfl, hActive, hIssued, hStale⟩

theorem handle_turn (driver : AppRuntimeDriver) (request : WalletSyncRequest) :
    Turn codecs driver (.walletSync request) (driver.handle codecs request).1
      (driver.handle codecs request).2 := by
  cases request with
  | checkpoint => exact Turn.unchanged rfl (fun _ => id)
  | restore checkpoint =>
    unfold handle
    dsimp only
    split
    · exact Turn.unchanged rfl (fun _ => id)
    rename_i hUntouched
    split
    · exact Turn.unchanged rfl (fun _ => id)
    split
    · exact Turn.unchanged rfl (fun _ => id)
    · rename_i session app hInstall
      rcases installCheckpoint_spec hInstall with ⟨hActive, hIssued, hStale⟩
      rw [not_or, Option.not_isSome_iff_eq_none] at hUntouched
      rw [hUntouched.1] at hActive
      exact Turn.ended ⟨hActive, hIssued, hStale⟩ rfl
  | beginHd xpub limits =>
    unfold handle
    dsimp only
    split
    · exact Turn.unchanged rfl (fun _ => id)
    · exact Turn.unchanged rfl (fun _ => id)
    · rename_i session lease scan hBegin
      exact Turn.began lease (beginHd_began hBegin) rfl
  | begin addresses =>
    unfold handle
    dsimp only
    split
    · exact Turn.unchanged rfl (fun _ => id)
    split
    · exact Turn.unchanged rfl (fun _ => id)
    · rename_i session lease hBegin
      exact Turn.began lease (begin_began hBegin) rfl
  | finish lease result persist checks =>
    have hFinished :
        Finished codecs driver.walletSync driver.state lease
          (driver.walletSync.finish codecs driver.state lease result persist checks) :=
      finish_finished result
    unfold handle
    dsimp only
    generalize driver.walletSync.finish codecs driver.state lease result persist checks = finished
      at hFinished
    cases hFinished with
    | other hOther =>
      apply Turn.kept
      · rfl
      · rfl
      · intro id hActive hEnds
        apply hOther
        rw [hActive, ← hEnds]
    | failed hCurrent hEnded hKept hOutcome => exact Turn.ended hEnded rfl
    | accepted hCurrent hActive hIssued hState hCoins =>
      exact Turn.accepted lease result persist checks _ rfl rfl hActive hIssued hState hCoins
  | invalidate reason => exact Turn.ended (ended_invalidate driver.walletSync reason) rfl

/- Everything that a turn can do, whatever the input is. -/
theorem step_turn (codecs : WalletCodecs) (driver : AppRuntimeDriver) (input : DriverInput) :
    Turn codecs driver input (driver.step codecs input).1 (driver.step codecs input).2 := by
  cases input with
  | walletSync request => exact handle_turn driver request
  | event app event restored =>
    unfold step
    dsimp only
    split
    · exact Turn.unchanged rfl (fun _ => id)
    · rename_i driver' hPublish
      rcases publish_turn hPublish with ⟨hEvent, hSession⟩ | ⟨-, hEnded⟩
      · apply Turn.kept hSession rfl
        intro id _ hEnds
        change endingEvent event = true at hEnds
        rw [hEvent] at hEnds
        cases hEnds
      · exact Turn.ended hEnded rfl
  | annotate app persist checks =>
    unfold step
    dsimp only
    rcases hAnnotated : driver.walletSync.persistAnnotation app driver.state persist checks with
      ⟨⟨session, app'⟩, event⟩
    dsimp only
    split
    · exact Turn.unchanged rfl (fun _ => id)
    rename_i driver' hPublish
    rcases persistAnnotation_spec hAnnotated with ⟨rfl, rfl⟩ | ⟨hEnded, rfl⟩
    · rcases publish_turn hPublish with ⟨-, hSession⟩ | ⟨hEvent, -⟩
      · apply Turn.kept hSession rfl
        intro id _ hEnds
        exact hEnds
      · cases hEvent
    · rcases publish_turn hPublish with ⟨-, hSession⟩ | ⟨hEvent, -⟩
      · rw [← hSession] at hEnded
        exact Turn.ended hEnded rfl
      · cases hEvent
  | abandoned => exact Turn.ended (ended_invalidate driver.walletSync _) rfl

--- What A Finish Leaves Alone

/- A request that is not published changes nothing. -/
theorem handle_blank (driver : AppRuntimeDriver) (request : WalletSyncRequest) :
    ((driver.handle codecs request).1 = driver ∧ (driver.handle codecs request).2.lease? = none) ∨
    (driver.handle codecs request).1.Blank := by
  cases request with
  | checkpoint => exact Or.inl ⟨rfl, rfl⟩
  | restore checkpoint =>
    unfold handle
    dsimp only
    split
    · exact Or.inl ⟨rfl, rfl⟩
    split
    · exact Or.inl ⟨rfl, rfl⟩
    split
    · exact Or.inl ⟨rfl, rfl⟩
    · exact Or.inr (blank_publishApp _ _)
  | beginHd xpub limits =>
    unfold handle
    dsimp only
    split
    · exact Or.inl ⟨rfl, rfl⟩
    · exact Or.inl ⟨rfl, rfl⟩
    · exact Or.inr (blank_publishApp _ _)
  | begin addresses =>
    unfold handle
    dsimp only
    split
    · exact Or.inl ⟨rfl, rfl⟩
    split
    · exact Or.inl ⟨rfl, rfl⟩
    · exact Or.inr (blank_publishApp _ _)
  | finish lease result persist checks => exact Or.inr (blank_publishApp _ _)
  | invalidate reason => exact Or.inr (blank_publishApp _ _)

theorem publish_blank {app : AppState} {event : AppEvent} {restored : Option WalletCheckpoint}
    (hPublish : publish codecs session app event restored = some driver') : driver'.Blank := by
  unfold publish at hPublish
  rcases Option.bind_eq_some_iff.mp hPublish with ⟨⟨next, app'⟩, -, hPublish⟩
  cases hPublish
  exact blank_publishApp _ _

theorem step_blank (codecs : WalletCodecs) (driver : AppRuntimeDriver) (input : DriverInput) :
    ((driver.step codecs input).1 = driver ∧ (driver.step codecs input).2.lease? = none) ∨
    (driver.step codecs input).1.Blank := by
  cases input with
  | walletSync request => exact handle_blank driver request
  | event app event restored =>
    unfold step
    dsimp only
    split
    · exact Or.inl ⟨rfl, rfl⟩
    · rename_i driver' hPublish
      exact Or.inr (publish_blank hPublish)
  | annotate app persist checks =>
    unfold step
    dsimp only
    split
    · exact Or.inl ⟨rfl, rfl⟩
    · rename_i driver' hPublish
      exact Or.inr (publish_blank hPublish)
  | abandoned => exact Or.inr (blank_publishApp _ _)

/- Unless it was accepted, a finish changes no coin, address or wallet, and no history that a turn
   has shown. -/
theorem finish_frame {lease : WalletSyncLease} {result : WalletReconciliation} {persist : Persist}
    {checks : PublicationChecks} {reply : WalletSyncReply}
    (hFinish : driver.handle codecs (.finish lease result persist checks) = (driver', reply))
    (hReply : reply ≠ .finished (.ok .accepted)) :
    driver'.state.coins = driver.state.coins ∧
    driver'.state.hdAddresses = driver.state.hdAddresses ∧
    driver'.state.wallet = driver.state.wallet ∧
    (driver.Blank → driver'.state.walletSync.history = driver.state.walletSync.history) := by
  have hFinished :
      Finished codecs driver.walletSync driver.state lease
        (driver.walletSync.finish codecs driver.state lease result persist checks) :=
    finish_finished result
  unfold handle at hFinish
  dsimp only at hFinish
  generalize driver.walletSync.finish codecs driver.state lease result persist checks = finished
    at hFinished hFinish
  cases hFinished with
  | other hOther =>
    cases hFinish
    exact ⟨rfl, rfl, rfl, history_publishApp⟩
  | failed hCurrent hEnded hKept hOutcome =>
    cases hFinish
    refine ⟨rfl, rfl, rfl, ?_⟩
    intro hBlank
    apply history_publishApp
    rw [hKept]
    exact hBlank
  | accepted hCurrent hActive hIssued hState hCoins =>
    cases hFinish
    exact absurd rfl hReply

/- Only the active lease is accepted. -/
theorem finish_active {lease : WalletSyncLease} {result : WalletReconciliation} {persist : Persist}
    {checks : PublicationChecks}
    (hReply :
        (driver.handle codecs (.finish lease result persist checks)).2 = .finished (.ok .accepted))
      : driver.walletSync.active = some lease.id := by
  have hFinished :
      Finished codecs driver.walletSync driver.state lease
        (driver.walletSync.finish codecs driver.state lease result persist checks) :=
    finish_finished result
  unfold handle at hReply
  dsimp only at hReply
  generalize driver.walletSync.finish codecs driver.state lease result persist checks = finished
    at hFinished hReply
  cases hFinished with
  | other hOther => cases hReply
  | failed hCurrent hEnded hKept hOutcome => exact hCurrent
  | accepted hCurrent hActive hIssued hState hCoins => exact hCurrent

--- Runs

variable (codecs)

section

variable (driver : AppRuntimeDriver) (input : DriverInput)

/- The actor after a turn, and what is sent back. -/
def turn : AppRuntimeDriver :=
  (driver.step codecs input).1

def reply : WalletSyncReply :=
  (driver.step codecs input).2

end

section

variable (app : AppState) (inputs : List DriverInput)

def run : AppRuntimeDriver :=
  inputs.foldl (turn codecs) (new app)

/- Some turn of the run handed out a lease with this id. -/
def Issued (id : Nat) : Prop :=
  ∃ earlier input later,
    inputs = earlier ++ input :: later ∧
      ∃ lease, (reply codecs (run codecs app earlier) input).lease? = some lease ∧ lease.id = id

/-
  The lease is the one issued last, once, and neither was it used nor did anything invalidate it
  since.
-/
def Current (id : Nat) : Prop :=
  ∃ earlier input later,
    inputs = earlier ++ input :: later ∧ ¬ Issued codecs app earlier id ∧
      (∃ lease, (reply codecs (run codecs app earlier) input).lease? = some lease ∧ lease.id = id) ∧
      Runs.EachStep (turn codecs)
        (fun driver next =>
          (reply codecs driver next).lease? = none ∧ ¬ next.Ends id (reply codecs driver next))
        (run codecs app (earlier ++ [input])) later

/-
  The last change of the session's state was a finish that was accepted, and it left the coins
  that the authoritative snapshot projects to.
-/
def FreshlyPublished : Prop :=
  ∃ earlier lease result persist checks later snapshot,
    let finish : DriverInput := .walletSync (.finish lease result persist checks)
    let published := run codecs app (earlier ++ [finish])
    inputs = earlier ++ finish :: later ∧
      reply codecs (run codecs app earlier) finish = .finished (.ok .accepted) ∧
      published.walletSync.state.authoritative = some snapshot ∧
      snapshot.value.ProjectedCoins codecs lease.addresses published.state.coins ∧
      Runs.EachState (turn codecs)
        (fun driver => driver.walletSync.state = published.walletSync.state) published later

end

variable {codecs} {app : AppState} {inputs : List DriverInput}

theorem run_concat :
    run codecs app (inputs ++ [input]) = turn codecs (run codecs app inputs) input := by
  unfold run
  rw [List.foldl_concat]

theorem run_append {earlier later : List DriverInput} :
    run codecs app (earlier ++ later) = later.foldl (turn codecs) (run codecs app earlier) := by
  unfold run
  rw [List.foldl_append]

variable {id : Nat}

theorem issued_concat :
    Issued codecs app (inputs ++ [input]) id ↔
    Issued codecs app inputs id ∨ ∃ lease,
        (reply codecs (run codecs app inputs) input).lease? = some lease ∧ lease.id = id := by
  constructor
  · rintro ⟨earlier, issuing, later, hSplit, hLease⟩
    rcases List.eq_nil_or_concat later with rfl | ⟨later', last, rfl⟩
    · rw [List.append_singleton_inj] at hSplit
      rcases hSplit with ⟨rfl, rfl⟩
      exact Or.inr hLease
    · rw [List.concat_eq_append, ← List.cons_append, ← List.append_assoc, List.append_singleton_inj]
        at hSplit
      exact Or.inl ⟨earlier, issuing, later', hSplit.1, hLease⟩
  · rintro (⟨earlier, issuing, later, rfl, hLease⟩ | hLease)
    · refine ⟨earlier, issuing, later ++ [input], ?_, hLease⟩
      rw [List.append_assoc, List.cons_append]
    · exact ⟨inputs, input, [], rfl, hLease⟩

/- By induction over the run, from its end. -/
theorem issued_lt (hIssued : Issued codecs app inputs id) :
    id < (run codecs app inputs).walletSync.issued := by
  induction inputs using List.reverseRecOn with
  | nil =>
    rcases hIssued with ⟨earlier, issuing, later, hSplit, -⟩
    have hLength := congrArg List.length hSplit
    simp at hLength
  | append_singleton inputs input ih =>
    rw [run_concat]
    have hTurn := step_turn codecs (run codecs app inputs) input
    rcases issued_concat.mp hIssued with hOld | ⟨lease, hLease, rfl⟩
    · have hBound := ih hOld
      unfold turn
      cases hTurn with
      | kept hSession hReply hEnds => rw [hSession]; exact hBound
      | began lease hBegan hReply =>
        rw [hBegan.issued]
        omega
      | ended hEnded hReply => rw [hEnded.issued]; exact hBound
      | accepted lease result persist checks snapshot hInput
          hReply hActive hIssued hState hCoins =>
          rw [hIssued]
          exact hBound
    · unfold reply at hLease
      unfold turn
      cases hTurn with
      | kept hSession hReply hEnds =>
        rw [hReply] at hLease
        cases hLease
      | began lease' hBegan hReply =>
        rw [hReply] at hLease
        cases hLease
        rw [hBegan.issued, hBegan.id]
        omega
      | ended hEnded hReply =>
        rw [hReply] at hLease
        cases hLease
      | accepted lease' result persist checks snapshot hInput
          hReply hActive hIssued hState hCoins =>
          rw [hReply] at hLease
          cases hLease

/- Once a lease was issued, what is shown was projected. -/
theorem blank_of_issued (hIssued : Issued codecs app inputs id) :
    (run codecs app inputs).Blank := by
  induction inputs using List.reverseRecOn with
  | nil =>
    rcases hIssued with ⟨earlier, issuing, later, hSplit, -⟩
    have hLength := congrArg List.length hSplit
    simp at hLength
  | append_singleton inputs input ih =>
    rw [run_concat]
    unfold turn
    rcases step_blank codecs (run codecs app inputs) input with ⟨hSame, hReply⟩ | hBlank
    · rw [hSame]
      rcases issued_concat.mp hIssued with hOld | ⟨lease, hLease, -⟩
      · exact ih hOld
      · unfold reply at hLease
        rw [hReply] at hLease
        cases hLease
    · exact hBlank

/-
  An active lease is current.  By induction over the run, from its end: each turn issues it, or
  leaves it active.
-/
theorem current_of_active (hActive : (run codecs app inputs).walletSync.active = some id) :
    Current codecs app inputs id := by
  induction inputs using List.reverseRecOn with
  | nil => cases hActive
  | append_singleton inputs input ih =>
    rw [run_concat] at hActive
    unfold turn at hActive
    have hTurn := step_turn codecs (run codecs app inputs) input
    cases hTurn with
    | kept hSession hReply hEnds =>
      rw [hSession] at hActive
      rcases ih hActive with ⟨earlier, issuing, later, hSplit, hNew, hLease, hLater⟩
      refine ⟨earlier, issuing, later ++ [input], ?_, hNew, hLease, ?_⟩
      · rw [hSplit, List.append_assoc, List.cons_append]
      · rw [Runs.eachStep_concat]
        refine ⟨hLater, ?_⟩
        rw [← run_append, List.append_assoc, List.singleton_append, ← hSplit]
        exact ⟨hReply, hEnds id hActive⟩
    | began lease hBegan hReply =>
      rw [hBegan.active, Option.some_inj] at hActive
      refine ⟨inputs, input, [], rfl, ?_, ⟨lease, hReply, hActive⟩, Runs.eachStep_nil⟩
      intro hOld
      have hBound := issued_lt hOld
      rw [← hActive, hBegan.id] at hBound
      exact lt_irrefl _ hBound
    | ended hEnded hReply =>
      rw [hEnded.active] at hActive
      cases hActive
    | accepted lease result persist checks snapshot hInput
        hReply hNone hIssued hState hCoins =>
        rw [hNone] at hActive
        cases hActive

/-
  Fresh coins were published.  By induction over the run, from its end: each turn publishes, or
  leaves the state.
-/
theorem published_of_fresh (hFresh : (run codecs app inputs).walletSync.coinsAreFresh = true) :
    FreshlyPublished codecs app inputs := by
  induction inputs using List.reverseRecOn with
  | nil => cases hFresh
  | append_singleton inputs input ih =>
    have hTurn := step_turn codecs (run codecs app inputs) input
    rw [run_concat] at hFresh
    unfold turn at hFresh
    cases hTurn with
    | kept hSession hReply hEnds =>
      rw [hSession] at hFresh
      rcases ih hFresh with
        ⟨earlier, lease, result, persist, checks, later, snapshot, hSplit, hReply', hState, hCoins,
          hLater⟩
      refine ⟨earlier, lease, result, persist, checks, later ++ [input], snapshot, ?_, hReply',
        hState, hCoins, ?_⟩
      · rw [hSplit, List.append_assoc, List.cons_append]
      · rw [Runs.eachState_concat]
        refine ⟨hLater, ?_⟩
        have hHere := hLater later [] (by simp)
        rw [← run_append, List.append_assoc, List.singleton_append, ← hSplit] at hHere ⊢
        unfold turn
        rw [hSession]
        exact hHere
    | began lease hBegan hReply =>
      rw [hBegan.stale] at hFresh
      cases hFresh
    | ended hEnded hReply =>
      rw [hEnded.stale] at hFresh
      cases hFresh
    | accepted lease result persist checks snapshot hInput
        hReply hActive hIssued hState hCoins =>
        refine ⟨inputs, lease, result, persist, checks, [], snapshot, ?_, ?_, ?_, ?_, ?_⟩
        · rw [hInput]
        · rw [← hInput]
          exact hReply
        · rw [← hInput, run_concat]
          exact hState
        · rw [← hInput, run_concat]
          exact hCoins
        · rw [Runs.eachState_nil]

/-
  In every run: a finish under a lease that was ever issued changes coins, HD addresses or history
  only where that lease is current; a finish that is not accepted leaves coins, HD addresses and
  wallet as they were; and coins are fresh only after a finish that was accepted, with the coins
  of the authoritative snapshot, since which the state of the session did not change.
-/
theorem only_current_lease_publishes (codecs : WalletCodecs) (app : AppState)
    (inputs : List DriverInput) :
    (∀ lease result persist checks,
        let finish : DriverInput := .walletSync (.finish lease result persist checks)
        let before := run codecs app inputs
        let after := turn codecs before finish
        (Issued codecs app inputs lease.id → after.state.coins ≠ before.state.coins ∨
                after.state.hdAddresses ≠ before.state.hdAddresses ∨
                  after.state.walletSync.history ≠ before.state.walletSync.history →
              Current codecs app inputs lease.id) ∧
          (reply codecs before finish ≠ .finished (.ok .accepted) →
            after.state.coins = before.state.coins ∧
              after.state.hdAddresses = before.state.hdAddresses ∧
                after.state.wallet = before.state.wallet)) ∧
      ((run codecs app inputs).walletSync.coinsAreFresh = true →
        FreshlyPublished codecs app inputs) := by
  refine ⟨?_, published_of_fresh⟩
  intro lease result persist checks
  dsimp only
  constructor
  · intro hIssued hChanged
    apply current_of_active
    by_contra hOther
    have hReply :
        reply codecs (run codecs app inputs) (.walletSync (.finish lease result persist checks)) ≠
          .finished (.ok .accepted) := by
      intro hAccepted
      exact hOther (finish_active hAccepted)
    rcases finish_frame rfl hReply with ⟨hCoins, hAddresses, -, hHistory⟩
    rcases hChanged with hChanged | hChanged | hChanged
    · exact hChanged hCoins
    · exact hChanged hAddresses
    · exact hChanged (hHistory (blank_of_issued hIssued))
  · intro hReply
    rcases finish_frame rfl hReply with ⟨hCoins, hAddresses, hWallet, -⟩
    exact ⟨hCoins, hAddresses, hWallet⟩

--- Two Refreshes Of One Address

def receiveAddress : String :=
  "bchtest:qqsmeq8pee5px5z3f3uj57cu8dch9d5x555p7qzdf3"

def receiveScript : List UInt8 :=
  Address.scriptPubkey
    { kind := .p2pkh
      hash := HdAccountScan.receiveHash
      addressPrefix := "bchtest" }

/- A wallet that watches the address. -/
def watchedApp : AppState :=
  { network := .chipnet
    coins := CoinSet.new
    notice := none
    wallet :=
      some
        { kind := .watchOnly
          receiveAddress
          accountPath := "m/44'/145'/1'"
          multisigPolicy := none
          accountXpub := none }
    hdAddresses := none
    walletSync := WalletSyncView.empty
    spendPrepared := false }

def olderLease : WalletSyncLease :=
  { id := 0
    network := .chipnet
    addresses := [receiveAddress]
    interests := [.script receiveScript]
    baseline := ReconciliationState.new }

/- It was issued while the first refresh was in progress. -/
def newerLease : WalletSyncLease :=
  { olderLease with
    id := 1
    baseline :=
      { authoritative := none
        sync :=
          { WalletSyncState.new with
            degradedReason := some "wallet refresh in progress" } } }

/- What both refreshes find: one payment. -/
def receiveResult : WalletReconciliation :=
  let tip : ChainTip := { height := 100, hash := Vector.replicate 32 7 }
  { authoritative :=
      some
        { value :=
            { hd := none
              interests := [.script receiveScript]
              transactions :=
                [ { txid := HdAccountScan.paymentTxid
                    raw := HdAccountScan.receivePayment
                    blockHeight := some 50 } ]
              tip := some tip }
          source := "electrum"
          evidence := .serverAssertion
          chainTip := some (tip.height, tip.hash) }
    sync :=
      { primarySource := some "electrum"
        historyFresh := true
        utxosFresh := true
        chainTip := some (tip.height, tip.hash)
        verification := .discovered
        degradedReason := none } }

def beginReceive : DriverInput := .walletSync (.begin [receiveAddress])

def finishReceive (lease : WalletSyncLease) : DriverInput :=
  .walletSync
    (.finish lease receiveResult (fun _ _ => .ok ())
      { onReceipt := true, beforePersistence := true, afterPersistence := true })

/- The refresh that began first is superseded, and the other one is published. -/
theorem only_current_lease_publishes_receive :
    reply HdAccountScan.knownCodecs (run HdAccountScan.knownCodecs watchedApp [beginReceive])
        beginReceive = .began (.ok newerLease) ∧
    reply HdAccountScan.knownCodecs
        (run HdAccountScan.knownCodecs watchedApp [beginReceive, beginReceive])
        (finishReceive olderLease) = .finished (.error .superseded) ∧
    FreshlyPublished HdAccountScan.knownCodecs watchedApp
      [beginReceive, beginReceive, finishReceive olderLease, finishReceive newerLease] := by
  refine ⟨by decide +kernel, by decide +kernel, ?_⟩
  apply (only_current_lease_publishes HdAccountScan.knownCodecs watchedApp
    [beginReceive, beginReceive, finishReceive olderLease, finishReceive newerLease]).2
  decide +kernel

--- Prepared Spends

theorem installCheckpoint_spendPrepared {session' : WalletSyncSession}
    {checkpoint : WalletCheckpoint} {app' : AppState}
    (hInstall : session.installCheckpoint codecs checkpoint app = some (session', app')) :
    app'.spendPrepared = false := by
  unfold installCheckpoint at hInstall
  rcases Option.bind_eq_some_iff.mp hInstall with ⟨view, -, hInstall⟩
  rcases Option.bind_eq_some_iff.mp hInstall with ⟨wallet, -, hInstall⟩
  rcases Option.bind_eq_some_iff.mp hInstall with ⟨restored, -, hInstall⟩
  cases hInstall
  rfl

/- A refresh prepares no spend. -/
theorem finish_spendPrepared {lease : WalletSyncLease} {result : WalletReconciliation}
    {persist : Persist} {checks : PublicationChecks} (hNone : app.spendPrepared = false) :
    (session.finish codecs app lease result persist checks).1.2.spendPrepared = false := by
  unfold finish publishCandidate refuse supersede
  dsimp only
  repeat' split
  all_goals first | exact hNone | rfl

theorem publish_spendPrepared {event : AppEvent} {restored : Option WalletCheckpoint}
    (hPublish : publish codecs session app event restored = some driver')
    (hSpend : driver'.state.spendPrepared = true) : driver'.walletSync.coinsAreFresh = true := by
  unfold publish at hPublish
  rcases Option.bind_eq_some_iff.mp hPublish with ⟨⟨next, app'⟩, -, hPublish⟩
  cases hPublish
  exact (Bool.and_eq_true_iff.mp hSpend).1

/- A prepared spend rests on fresh coins, and no coins are fresh while a refresh is in progress. -/
structure Prepared (driver : AppRuntimeDriver) : Prop where
  fresh : driver.state.spendPrepared = true → driver.walletSync.coinsAreFresh = true
  refreshing : driver.walletSync.active.isSome → driver.walletSync.coinsAreFresh = false

/- Only a refresh in progress is abandoned. -/
def Awaited (driver : AppRuntimeDriver) (input : DriverInput) : Prop :=
  input = .abandoned → driver.walletSync.active.isSome

section

variable (hPrepared : driver.Prepared)
include hPrepared

theorem Prepared.unprepared (hActive : driver.walletSync.active.isSome) :
    driver.state.spendPrepared = false := by
  by_contra hSpend
  have hFresh := hPrepared.fresh (Bool.not_eq_false _ ▸ hSpend)
  rw [hPrepared.refreshing hActive] at hFresh
  cases hFresh

theorem handle_fresh (request : WalletSyncRequest) :
    (driver.handle codecs request).1.state.spendPrepared = true →
      (driver.handle codecs request).1.walletSync.coinsAreFresh = true := by
  cases request with
  | checkpoint => exact hPrepared.fresh
  | restore checkpoint =>
    grind [handle, publishApp, projectStatus, installCheckpoint_spendPrepared, hPrepared.fresh]
  | beginHd xpub limits => grind [handle, publishApp, projectStatus, hPrepared.fresh]
  | begin addresses => grind [handle, publishApp, projectStatus, hPrepared.fresh]
  | finish lease result persist checks =>
    unfold handle
    dsimp only
    -- another lease leaves everything, and under the current one no spend was prepared
    by_cases hCurrent : driver.walletSync.active = some lease.id
    · intro hSpend
      have hNone := hPrepared.unprepared (by rw [hCurrent]; rfl)
      change (finish ..).1.2.spendPrepared = true at hSpend
      rw [finish_spendPrepared hNone] at hSpend
      cases hSpend
    · unfold finish
      rw [if_pos hCurrent]
      exact hPrepared.fresh
  | invalidate reason => exact fun hSpend => by cases hSpend

theorem step_prepared {input : DriverInput} (hAwaited : driver.Awaited input) :
    (turn codecs driver input).Prepared := by
  unfold turn
  constructor
  · cases input with
    | walletSync request => exact handle_fresh hPrepared request
    | event app event restored => grind [step, publish_spendPrepared, hPrepared.fresh]
    | annotate app persist checks => grind [step, publish_spendPrepared, hPrepared.fresh]
    | abandoned =>
      intro hSpend
      have hNone := hPrepared.unprepared (hAwaited rfl)
      change driver.state.spendPrepared = true at hSpend
      rw [hNone] at hSpend
      cases hSpend
  · intro hActive
    have hTurn := step_turn codecs driver input
    cases hTurn with
    | kept hSession hReply hEnds =>
      rw [hSession] at hActive ⊢
      exact hPrepared.refreshing hActive
    | began lease hBegan hReply => exact hBegan.stale
    | ended hEnded hReply => exact hEnded.stale
    | accepted lease result persist checks snapshot hInput
        hReply hNone hIssued hState hCoins =>
        rw [hNone] at hActive
        cases hActive

end

/-
  A spend is prepared only over coins that an accepted refresh published, and the state of the
  session did not change since.
-/
theorem prepared_spend_published (codecs : WalletCodecs) {app : AppState}
    (hApp : app.spendPrepared = false) {inputs : List DriverInput}
    (hAwaited : Runs.EachStep (turn codecs) Awaited (new app) inputs)
    (hSpend : (run codecs app inputs).state.spendPrepared = true) :
    FreshlyPublished codecs app inputs := by
  have hNew : (new app).Prepared := by
    constructor
    · intro hPrepared
      change app.spendPrepared = true at hPrepared
      rw [hApp] at hPrepared
      cases hPrepared
    · intro hActive
      cases hActive
  have hStep :
      ∀ driver input, Prepared driver → Awaited driver input → (turn codecs driver input).Prepared :=
    fun _ _ hHere hInput => step_prepared hHere hInput
  have hEach := Runs.eachState_of_eachStep hStep hNew hAwaited
  exact published_of_fresh ((hEach inputs [] (List.append_nil _).symm).fresh hSpend)

/- A spend that is prepared after the refresh. -/
def prepareSpend : DriverInput :=
  .event
    { (run HdAccountScan.knownCodecs watchedApp
        [beginReceive, finishReceive olderLease]).state with
      spendPrepared := true }
    .other none

theorem prepared_spend_published_receive :
    FreshlyPublished HdAccountScan.knownCodecs watchedApp
      [beginReceive, finishReceive olderLease, prepareSpend] := by
  apply prepared_spend_published HdAccountScan.knownCodecs rfl
  · intro done input rest hSplit hAbandoned
    subst hAbandoned
    have hMem : DriverInput.abandoned ∈ [beginReceive, finishReceive olderLease, prepareSpend] := by
      rw [hSplit]
      simp
    simp [beginReceive, finishReceive, prepareSpend] at hMem
  · decide +kernel

end AppRuntimeDriver

end OptnWallet
