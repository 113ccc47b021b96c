import OptnWallet.Fusion.Run.Safety

/-
  Whole fusions, from the hello of the server to the last round. A round that skipped its
  signatures is played again, and the round after it may sign.

  Main declarations:
    * `Fusion.fusion_signs_safely`
    * `Fusion.commitRound_of_stages`
    * `Fusion.skipped_round_is_followed_by_signatures`
-/

--- Whole Fusions

namespace OptnWallet.Fusion

open StagedUpdate
open Overflow (Mode)
open Schnorr (Curve)

variable {n : Nat} {Point : Type} [AddCommGroup Point] [Module (ZMod n) Point] [DecidableEq Point]
variable {sha256 : List UInt8 → Vector UInt8 32} {params : FusionRunParams} {world : World n}
variable {session : FusionSession} {events : List Event}

theorem awaitBegin_stopped {deadline : Nat → Bool} {registered updates : Nat}
    {best : Option (UInt64 × UInt32 × UInt32)} {outcome : FusionOutcome}
    (hWait : awaitBegin deadline registered updates best events = .ok (.inl outcome)) :
    outcome.ok = false := by
  induction events generalizing updates best with
  | nil =>
    unfold awaitBegin at hWait
    cases hWait
  | cons event events ih =>
    unfold awaitBegin at hWait
    rcases bind_eq_ok_iff.mp hWait with ⟨message, hMessage, hWait⟩
    split at hWait
    · dsimp only at hWait
      split at hWait
      · cases hWait
        rfl
      · exact ih hWait
    · cases hWait
    · cases hWait
    · exact ih hWait

variable {rest : List Event}

theorem joinPool_session
    (hJoin : joinPool sha256 params world events = .ok (.inr (session, rest))) :
    session.outputScripts = params.outputScripts.take session.plan.outputValues.length ∧
    ∃ hello tier indexed,
      indexPlans params hello = .ok indexed ∧ indexed.get? tier = some session.plan := by
  unfold joinPool at hJoin
  split at hJoin
  · cases hJoin
  rcases bind_eq_ok_iff.mp hJoin with ⟨_, -, hJoin⟩
  rcases bind_eq_ok_iff.mp hJoin with ⟨_, -, hJoin⟩
  rcases bind_eq_ok_iff.mp hJoin with ⟨⟨hello, afterHello⟩, -, hJoin⟩
  rcases bind_eq_ok_iff.mp hJoin with ⟨_, -, hJoin⟩
  rcases bind_eq_ok_iff.mp hJoin with ⟨_, -, hJoin⟩
  rcases bind_eq_ok_iff.mp hJoin with ⟨plans, hPlans, hJoin⟩
  rcases bind_eq_ok_iff.mp hJoin with ⟨_, -, hJoin⟩
  rcases bind_eq_ok_iff.mp hJoin with ⟨waited, -, hJoin⟩
  cases waited with
  | inl outcome => cases hJoin
  | inr begun =>
    rcases bind_eq_ok_iff.mp hJoin with ⟨opened, hBegin, hJoin⟩
    cases hJoin
    unfold beginSession at hBegin
    rcases bind_eq_ok_iff.mp hBegin with ⟨_, -, hBegin⟩
    rcases bind_eq_ok_iff.mp hBegin with ⟨plan, hPlan, hBegin⟩
    split at hBegin
    · cases hBegin
    rcases bind_eq_ok_iff.mp hBegin with ⟨_, -, hBegin⟩
    split at hBegin
    · cases hBegin
    rcases bind_eq_ok_iff.mp hBegin with ⟨_, -, hBegin⟩
    rcases bind_eq_ok_iff.mp hBegin with ⟨_, -, hBegin⟩
    cases hBegin
    exact ⟨rfl, hello, begun.1.tier, plans, mapError_eq_ok_iff.mp hPlans,
      okOr_eq_ok_iff.mp (mapError_eq_ok_iff.mp hPlan)⟩

theorem joinPool_stopped {outcome : FusionOutcome}
    (hJoin : joinPool sha256 params world events = .ok (.inl outcome)) : outcome.ok = false := by
  unfold joinPool at hJoin
  split at hJoin
  · cases hJoin
  rcases bind_eq_ok_iff.mp hJoin with ⟨_, -, hJoin⟩
  rcases bind_eq_ok_iff.mp hJoin with ⟨_, -, hJoin⟩
  rcases bind_eq_ok_iff.mp hJoin with ⟨⟨hello, afterHello⟩, -, hJoin⟩
  rcases bind_eq_ok_iff.mp hJoin with ⟨_, -, hJoin⟩
  rcases bind_eq_ok_iff.mp hJoin with ⟨_, -, hJoin⟩
  rcases bind_eq_ok_iff.mp hJoin with ⟨plans, hPlans, hJoin⟩
  rcases bind_eq_ok_iff.mp hJoin with ⟨_, -, hJoin⟩
  rcases bind_eq_ok_iff.mp hJoin with ⟨waited, hWait, hJoin⟩
  cases waited with
  | inl stopped =>
    cases hJoin
    exact awaitBegin_stopped (mapError_eq_ok_iff.mp hWait)
  | inr begun =>
    rcases bind_eq_ok_iff.mp hJoin with ⟨opened, -, hJoin⟩
    cases hJoin

/-
  Over every order and content of the messages, and however often rounds restart.
-/
theorem fusion_signs_safely (components : Wire Component) (curve : Curve n Point)
    (setup : Pedersen.Setup curve) (sha256 : List UInt8 → Vector UInt8 32)
    (ripemd160 : List UInt8 → Vector UInt8 20) (hmac : List UInt8 → List UInt8 → Vector UInt8 32)
    (commitments : Wire InitialCommitment) (mode : Mode) (fuel : Nat)
    (hPoints : ∀ bytes point, curve.parsePoint bytes = .ok point → bytes.length ≤ 65)
    (hScripts : components.ShortScripts) (params : FusionRunParams) (world : World n)
    (events : List Event) :
    SafeRun components curve sha256 ripemd160 hmac fuel params
      (runFusion sha256 components curve setup ripemd160 hmac commitments mode fuel params world
        events) := by
  unfold runFusion
  cases hJoin : joinPool sha256 params world events with
  | error fault =>
    constructor
    · intro _
      refine ⟨rfl, ?_⟩
      intro found hFound
      cases hFound
    · intro plan hPlan
      cases hPlan
  | ok joined =>
    cases joined with
    | inl outcome =>
      constructor
      · intro _
        refine ⟨rfl, ?_⟩
        intro found hFound
        cases hFound
        exact joinPool_stopped hJoin
      · intro plan hPlan
        cases hPlan
    | inr begun =>
      rcases begun with ⟨session, rest⟩
      rcases joinPool_session hJoin with ⟨hSession, hIndexed⟩
      constructor
      · intro hNone
        cases hNone
      · intro plan hPlan
        cases hPlan
        exact ⟨hIndexed, playRounds_safe hPoints hScripts hSession rfl⟩

--- Rounds That Sign

variable {components : Wire Component} {curve : Curve n Point} {setup : Pedersen.Setup curve}
variable {ripemd160 : List UInt8 → Vector UInt8 20}
variable {hmac : List UInt8 → List UInt8 → Vector UInt8 32} {commitments : Wire InitialCommitment}
variable {mode : Mode} {fuel : Nat}

/- Rows in the order of their commitments stay where they are. -/
theorem buildRoundCommit_of_sorted {draws : Draws n} {inputs : List FusionInput}
    {outputs : List FusionOutput} {numComponents : Nat} {feerate : UInt64}
    {roundPubkey : List UInt8} {blindNoncePoints : List (List UInt8)}
    {built : List (List UInt8 × Int64)} {rows : List (Row n)} {excess : Int64}
    {requests : List (Schnorr.BlindSignatureRequest n Point)}
    (hCount : ¬ numComponents < inputs.length + outputs.length)
    (hNonces : blindNoncePoints.length = numComponents)
    (hBuilt :
      builtComponents components mode inputs outputs
          (numComponents - inputs.length - outputs.length) feerate = .ok built)
    (hRows :
      built.zipIdx.foldlM (addRow components curve setup sha256 commitments draws mode) ([], 0) =
        .ok (rows, excess)) (hExcess : ¬ excess.toInt < 0)
    (hSorted : rows.Pairwise (fun left right => decide (left.commitSer ≤ right.commitSer) = true))
    (hRequests :
        (rows.zip blindNoncePoints).zipIdx.mapM (blindRequest curve sha256 draws roundPubkey) =
          .ok requests) :
    buildRoundCommit components curve setup sha256 commitments draws mode inputs outputs
        numComponents feerate roundPubkey blindNoncePoints =
      .ok (roundCommit sha256 draws rows requests excess.toUInt64) := by
  have hSame : sortedRows rows = rows := List.mergeSort_of_pairwise hSorted
  unfold buildRoundCommit
  rw [if_neg hCount, if_neg (not_not.mpr hNonces), bind_of_ok hBuilt, bind_of_ok hRows]
  dsimp only
  rw [if_neg hExcess, hSame, bind_of_ok hRequests]

variable {number : Nat}

/- A round whose stages all answer is committed. -/
theorem commitRound_of_stages {slotCount : Nat} {start : StartRound}
    {scalars : List (List UInt8)} {commit : RoundCommit n Point}
    {blindSigs : List Schnorr.Signature}
    (hTime : validateServerTime (world.rounds number).clock start.serverTime = .ok ())
    (hWarmup : (world.rounds number).warmup = .ok ())
    (hCancel : (world.rounds number).cancelBeforeCommit = .ok ())
    (hPlan : recheckPlan params session "selected tier plan changed before PlayerCommit" = .ok ())
    (hCommit :
      buildRoundCommit components curve setup sha256 commitments (world.rounds number).draws mode
          (params.inputs.map fusionInput)
          ((session.outputScripts.zip
            session.plan.outputValues).map
              (fun entry => { scriptpubkey := entry.1, value := entry.2 }))
          session.hello.numComponents.toNat
          session.hello.componentFeerate start.roundPubkey.bytes
          start.blindNoncePoints =
        .ok commit)
    (hExcess : commit.excessFee = session.plan.excessFee)
    (hSend : (world.rounds number).sendCommit = .ok ())
    (hCount : scalars.length = commit.requests.length)
    (hSigs : (commit.requests.zip scalars).mapM (finalizeResponse sha256 curve) = .ok blindSigs)
    (hContinue : (world.rounds number).cancelBeforeComponents = .ok ())
    (hSlots : world.covertSlots = .ok slotCount)
    (hSlotCount : slotCount = commit.componentsSorted.length) :
    commitRound sha256 components curve setup commitments mode params world session number
        (.ok (.startRound start) :: .ok (.blindSigResponses scalars) :: rest) =
      .ok
        ({ roundPubkey := start.roundPubkey
           roundTime := start.serverTime
           commit
           blindSigs
           slotCount }, rest) := by
  have hStart :
      (expectStartRound
            (.ok (.startRound start) :: .ok (.blindSigResponses scalars) :: rest)).mapError
          Fault.error = .ok (start, .ok (.blindSigResponses scalars) :: rest) :=
    rfl
  have hBlind :
      (expectBlindSigResponses (.ok (.blindSigResponses scalars) :: rest)).mapError Fault.error =
        .ok (scalars, rest) :=
    rfl
  have hFirst :
      ((if number = 0 then (world.rounds number).warmup
        else .ok ()) : Except String Unit) =
        .ok () := by
    rw [hWarmup, ite_self]
  have hDone : (Except.ok () : Except String Unit).mapError (Fault.error (ε := String)) = .ok () :=
    rfl
  unfold commitRound
  dsimp only
  rw [bind_of_ok hStart]
  dsimp only
  rw [hTime, hFirst, hCancel, hPlan, hDone, bind_of_ok rfl, bind_of_ok rfl, bind_of_ok rfl,
    bind_of_ok rfl, bind_of_ok hCommit, if_neg (not_not.mpr hExcess), hSend, hDone, bind_of_ok rfl,
    bind_of_ok hBlind]
  dsimp only
  rw [if_neg (not_not.mpr hCount), bind_of_ok hSigs, hContinue, hDone, bind_of_ok rfl, hSlots]
  exact if_neg (not_not.mpr hSlotCount)

/- A round that skips its signatures is played again once the blame phase is over. -/
theorem playRound_skips {lastHash : Vector UInt8 32} {later : List Event}
    {committed : Committed n Point} {transcript : Transcript n Point} {located : Located}
    (hCommit :
      commitRound sha256 components curve setup commitments mode params world session number events
          = .ok (committed, rest))
    (hShared : receiveShared world number lastHash committed rest = .ok (transcript, later))
    (hLocate : locate sha256 transcript = .ok located) (hSkip : transcript.skipSignatures = true) :
    playRound sha256 components curve setup ripemd160 hmac commitments mode fuel params world
        session number lastHash events =
      (⟨some transcript, none⟩,
        blameThenRestart (world.rounds number) located.sessionHash later) := by
  unfold playRound
  rw [hCommit]
  dsimp only
  rw [hShared]
  dsimp only
  rw [hLocate]
  exact if_pos hSkip

theorem playRound_signs {lastHash : Vector UInt8 32} {later : List Event}
    {committed : Committed n Point} {transcript : Transcript n Point} {located : Located}
    {tx : FusionTx} {messages : List (Option CovertSignature)}
    (hCommit :
      commitRound sha256 components curve setup commitments mode params world session number events
          = .ok (committed, rest))
    (hShared : receiveShared world number lastHash committed rest = .ok (transcript, later))
    (hLocate : locate sha256 transcript = .ok located) (hSkip : ¬ transcript.skipSignatures = true)
    (hPrepare :
        prepareSignatures sha256 components curve ripemd160 hmac fuel params session transcript
            located (world.rounds number) = .ok (tx, messages)) :
    playRound sha256 components curve setup ripemd160 hmac commitments mode fuel params world
        session number lastHash events =
      (⟨some transcript, some messages⟩,
        concludeRound sha256 curve ripemd160 (world.rounds number) located tx later) := by
  unfold playRound
  rw [hCommit]
  dsimp only
  rw [hShared]
  dsimp only
  rw [hLocate]
  dsimp only
  rw [if_neg hSkip, hPrepare]

--- A Session Of Two Rounds

open Schnorr (BlindSignatureRequest toBytes)

/- What is hashed starts with its own hash. -/
def prefixSha256 (bytes : List UInt8) : Vector UInt8 32 :=
  Rpa.scalarBytes (natOfBytesBE ((bytes ++ List.replicate 32 0).take 32))

def oneRipemd160 (_ : List UInt8) : Vector UInt8 20 := Vector.replicate 20 1

def oneHmac (_ _ : List UInt8) : Vector UInt8 32 := Rpa.scalarBytes 1

def sampleKey : FusionInputKey where
  prevTxid := String.ofList (List.replicate 64 'a')
  prevIndex := 0
  pubkey := 2 :: List.replicate 32 2
  value := 100491
  privkey := Rpa.scalarBytes 2

def sampleParams : FusionRunParams where
  host := "localhost"
  tierPlans := [samplePlan 10000]
  inputs := [sampleKey]
  outputScripts := sampleScripts
  remoteTransport := none
  expectedHello := sampleHello

/- Nothing gets in the way of the rounds. -/
def sampleRoundWorld : RoundWorld 7 where
  clock := some 1000
  warmup := .ok ()
  cancelBeforeCommit := .ok ()
  sendCommit := .ok ()
  cancelBeforeComponents := .ok ()
  submitComponents := .ok ()
  signatureWindow := true
  submitSignatures := .ok ()
  sendMyProofs := .ok ()
  reviewTheirProofs := .ok ()
  draws := sampleDraws

def sampleWorld : World 7 where
  cancel := .ok ()
  sendHello := .ok ()
  sendJoin := .ok ()
  joinDeadline := fun _ => false
  clock := some 1000
  revalidateOwnInputs := .ok ()
  covertSlots := .ok 17
  rounds := fun _ => sampleRoundWorld

def received (bytes : List UInt8) : Received :=
  if hLength : bytes.length < 2 ^ 32 then ⟨bytes, hLength⟩
  else ⟨[], by decide⟩

def receivedList (blobs : List (List UInt8)) : ReceivedList :=
  if hLength : (blobs.map received).length < 2 ^ 32 then ⟨blobs.map received, hLength⟩
  else ⟨[], by decide⟩

def sampleFusionBegin : FusionBegin where
  tier := 10000
  covertDomain := received [0x6c, 0x6f, 0x63, 0x61, 0x6c, 0x68, 0x6f, 0x73, 0x74]
  covertPort := 80
  covertSsl := false
  serverTime := 1000

def sampleStart : StartRound where
  roundPubkey := received sampleRoundKey
  blindNoncePoints := samplePoints
  serverTime := 1000

def okValue {ε α : Type} (start : α) (value : Except ε α) : α := value.toOption.getD start

theorem eq_ok_okValue {ε α : Type} {value : Except ε α} (start : α)
    (hOk : value.toOption.isSome = true) : value = .ok (okValue start value) := by
  cases value with
  | error e => cases hOk
  | ok a => rfl

def sampleSession : FusionSession where
  hello := sampleHello
  tier := 10000
  plan := samplePlan 10000
  outputScripts := sampleScripts
  initialHash :=
    calcInitialHash prefixSha256 10000 sampleFusionBegin.covertDomain.bytes 80 false 1000

def sampleBuilt : List (List UInt8 × Int64) :=
  okValue []
    (builtComponents Schema.components .panics [fusionInput sampleKey]
      (plannedOutputs sampleScripts (samplePlan 10000)) 6 1000)

def sampleRows : List (Row 7) × Int64 :=
  okValue ([], 0)
    (sampleBuilt.zipIdx.foldlM
      (addRow Schema.components wideSeven sevenSetup prefixSha256 Schema.commitments sampleDraws
        .panics) ([], 0))

def sampleRequests : List (BlindSignatureRequest 7 (ZMod 7)) :=
  okValue []
    ((sampleRows.1.zip samplePoints).zipIdx.mapM
      (blindRequest wideSeven prefixSha256 sampleDraws sampleRoundKey))

def sampleCommit : RoundCommit 7 (ZMod 7) :=
  roundCommit prefixSha256 sampleDraws sampleRows.1 sampleRequests sampleRows.2.toUInt64

theorem sampleCommit_built :
    buildRoundCommit Schema.components wideSeven sevenSetup prefixSha256 Schema.commitments
        sampleDraws .panics [fusionInput sampleKey]
        (plannedOutputs sampleScripts (samplePlan 10000)) 17 1000 sampleRoundKey samplePoints =
      .ok sampleCommit := by
  have hBuilt :
      builtComponents Schema.components .panics [fusionInput sampleKey]
          (plannedOutputs sampleScripts (samplePlan 10000)) 6 1000 = .ok sampleBuilt :=
    eq_ok_okValue [] (by decide +kernel)
  have hRows :
      sampleBuilt.zipIdx.foldlM
          (addRow Schema.components wideSeven sevenSetup prefixSha256 Schema.commitments sampleDraws
            .panics) ([], 0) = .ok (sampleRows.1, sampleRows.2) :=
    eq_ok_okValue ([], 0) (by decide +kernel)
  exact buildRoundCommit_of_sorted (by decide) (by decide) hBuilt
      hRows (by decide +kernel) (by decide +kernel)
      (eq_ok_okValue [] (by decide +kernel))

/- What the server answers with the key three and the nonces two. -/
def sampleAnswers : List (List UInt8) :=
  sampleRequests.map
    (fun request => (toBytes (((2 : Nat) : ZMod 7) + request.e * ((3 : Nat) : ZMod 7))).toList)

def sampleCommitted : Committed 7 (ZMod 7) where
  roundPubkey := received sampleRoundKey
  roundTime := 1000
  commit := sampleCommit
  blindSigs :=
    okValue []
      ((sampleCommit.requests.zip sampleAnswers).mapM (finalizeResponse prefixSha256 wideSeven))
  slotCount := 17

theorem sample_commits (number : Nat) (rest : List Event) :
    commitRound prefixSha256 Schema.components wideSeven sevenSetup Schema.commitments .panics
        sampleParams sampleWorld sampleSession number
        (.ok (.startRound sampleStart) :: .ok (.blindSigResponses sampleAnswers) :: rest) =
      .ok (sampleCommitted, rest) := by
  have hSlots : 17 = sampleCommit.componentsSorted.length := by decide +kernel
  exact commitRound_of_stages rfl rfl rfl (by decide +kernel)
      sampleCommit_built (by decide +kernel) rfl
      (List.length_map _) (eq_ok_okValue [] (by decide +kernel))
      rfl rfl hSlots

def sampleTranscript (lastHash : Vector UInt8 32) (declared : Option (List UInt8)) (skip : Bool) :
    Transcript 7 (ZMod 7) where
  lastHash := lastHash
  committed := sampleCommitted
  allCommitments := receivedList sampleCommit.playerCommit.initialCommitments
  allComponents := receivedList sampleCommit.componentsSorted
  declaredHash := declared
  skipSignatures := skip

/- The first round has no hash and skips its signatures. -/
def skippedTranscript : Transcript 7 (ZMod 7) :=
  sampleTranscript sampleSession.initialHash none true

def skippedHash : Vector UInt8 32 := skippedTranscript.ownHash prefixSha256

def secondHash : List UInt8 :=
  ((sampleTranscript skippedHash none false).ownHash prefixSha256).toList

def signedTranscript : Transcript 7 (ZMod 7) := sampleTranscript skippedHash (some secondHash) false

def noPlace : Located where
  commitmentIndices := []
  componentSlots := BTreeMap.new
  componentIndices := []
  sessionHash := Vector.replicate 32 0

def signedLocated : Located := okValue noPlace (locate prefixSha256 signedTranscript)

def sampleSignatures : FusionTx × List (Option CovertSignature) :=
  okValue
    ({ version := 1, inputs := [], outputs := [], inputComponentIdx := [] }, [])
    (prepareSignatures prefixSha256 Schema.components wideSeven oneRipemd160 oneHmac 1 sampleParams
      sampleSession signedTranscript signedLocated sampleRoundWorld)

def roundEvents (transcript : Transcript 7 (ZMod 7)) (rest : List Event) : List Event :=
  .ok (.startRound sampleStart) ::
    .ok (.blindSigResponses sampleAnswers) ::
    .ok (.allCommitments transcript.allCommitments) ::
    .ok (.shareCovertComponents
        { components := transcript.allComponents
          skipSignatures := some transcript.skipSignatures
          sessionHash := transcript.declaredHash }) ::
    rest

theorem sample_shares (number : Nat) (transcript : Transcript 7 (ZMod 7))
    (hCommitted : transcript.committed = sampleCommitted) (rest : List Event) :
    receiveShared sampleWorld number transcript.lastHash sampleCommitted
        (.ok (.allCommitments transcript.allCommitments) ::
          .ok (.shareCovertComponents
              { components := transcript.allComponents
                skipSignatures := some transcript.skipSignatures
                sessionHash := transcript.declaredHash }) ::
          rest) =
      .ok (transcript, rest) := by
  rw [← hCommitted]
  rfl

def sampleEvents : List Event :=
  .ok (.serverHello sampleHello) :: .ok (.fusionBegin sampleFusionBegin) ::
    roundEvents skippedTranscript
      (.ok .theirProofsList :: .ok .restartRound :: roundEvents signedTranscript [])

def sampleRun : FusionRun 7 (ZMod 7) :=
  runFusion prefixSha256 Schema.components wideSeven sevenSetup oneRipemd160 oneHmac
    Schema.commitments .panics 1 sampleParams sampleWorld sampleEvents

theorem sample_joins (rest : List Event) :
    joinPool prefixSha256 sampleParams sampleWorld
        (.ok (.serverHello sampleHello) :: .ok (.fusionBegin sampleFusionBegin) :: rest) =
      .ok (.inr (sampleSession, rest)) := by
  have hPlans :
      ∃ plans,
      indexPlans sampleParams sampleHello = .ok plans ∧
        plans.get? 10000 = some (samplePlan 10000) :=
    exists_ok_of_check (by decide +kernel)
  rcases hPlans with ⟨plans, hPlans, hGet⟩
  have hHello : validateServerHello sampleHello = .ok () := by decide +kernel
  have hMatch : validateHelloMatch sampleHello sampleHello = .ok () := by decide +kernel
  have hTime : validateServerTime sampleWorld.clock sampleFusionBegin.serverTime = .ok () := by
    decide +kernel
  have hDomain : covertDomain sampleFusionBegin.covertDomain.bytes = .ok "localhost" := by
    decide +kernel
  have hTransport :
      selectCovertTransport sampleParams.host "localhost" sampleParams.remoteTransport =
        .ok .direct := by
    decide +kernel
  have hBegin :
      beginSession prefixSha256 sampleParams sampleWorld sampleHello plans sampleFusionBegin =
        .ok sampleSession := by
    have hPlan :
        okOr "server began a tier the wallet did not register" (plans.get? sampleFusionBegin.tier) =
          .ok (samplePlan 10000) :=
      okOr_eq_ok_iff.mpr hGet
    have hPool : ¬ sampleParams.outputScripts.length < (samplePlan 10000).outputValues.length := by
      decide
    have hPort :
        ¬ (2 ^ 16 ≤ sampleFusionBegin.covertPort.toNat ∨ sampleFusionBegin.covertPort = 0) := by
      decide
    unfold beginSession
    rw [bind_of_ok (mapError_eq_ok_iff.mpr hTime), bind_of_ok (mapError_eq_ok_iff.mpr hPlan),
      if_neg hPool, bind_of_ok (mapError_eq_ok_iff.mpr hDomain), if_neg hPort,
      bind_of_ok (mapError_eq_ok_iff.mpr hTransport)]
    rfl
  unfold joinPool
  refine (if_neg Bool.false_ne_true).trans ?_
  refine (bind_of_ok (mapError_eq_ok_iff.mpr hHello) _).trans ?_
  refine (bind_of_ok (mapError_eq_ok_iff.mpr hMatch) _).trans ?_
  refine (bind_of_ok (mapError_eq_ok_iff.mpr hPlans) _).trans ?_
  exact bind_of_ok hBegin _

theorem sampleRounds :
    ∃ outcome,
      sampleRun =
        { outcome
          plan := some (samplePlan 10000)
          rounds :=
            [⟨some skippedTranscript, none⟩,
              ⟨some signedTranscript, some sampleSignatures.2⟩] } := by
  have hFirst :
      playRound prefixSha256 Schema.components wideSeven sevenSetup oneRipemd160 oneHmac
          Schema.commitments .panics 1 sampleParams sampleWorld sampleSession 0
          sampleSession.initialHash
          (roundEvents skippedTranscript
            (.ok .theirProofsList :: .ok .restartRound :: roundEvents signedTranscript [])) =
        (⟨some skippedTranscript, none⟩,
          .restarted skippedHash (roundEvents signedTranscript [])) := by
    have hLocate :
        ∃ located,
        locate prefixSha256 skippedTranscript = .ok located ∧ located.sessionHash = skippedHash :=
      exists_ok_of_check (by decide +kernel)
    rcases hLocate with ⟨located, hLocate, hHash⟩
    rw [← hHash]
    exact playRound_skips (sample_commits 0 _) (sample_shares 0 skippedTranscript rfl _) hLocate rfl
  have hSecond :
      ∃ fault,
      playRound prefixSha256 Schema.components wideSeven sevenSetup oneRipemd160 oneHmac
          Schema.commitments .panics 1 sampleParams sampleWorld sampleSession 1 skippedHash
          (roundEvents signedTranscript []) =
        (⟨some signedTranscript, some sampleSignatures.2⟩, .failed fault) := by
    have hLocate : locate prefixSha256 signedTranscript = .ok signedLocated :=
      eq_ok_okValue noPlace (by decide +kernel)
    have hPrepare :
        prepareSignatures prefixSha256 Schema.components wideSeven oneRipemd160 oneHmac 1
            sampleParams sampleSession signedTranscript signedLocated sampleRoundWorld =
          .ok (sampleSignatures.1, sampleSignatures.2) :=
      eq_ok_okValue _ (by decide +kernel)
    exact ⟨.error "timed out waiting for FusionResult",
      playRound_signs (sample_commits 1 _) (sample_shares 1 signedTranscript rfl []) hLocate
        Bool.false_ne_true hPrepare⟩
  rcases hSecond with ⟨fault, hSecond⟩
  refine ⟨.error fault, ?_⟩
  unfold sampleRun runFusion sampleEvents
  rw [sample_joins]
  have hPlayed :
      playRounds prefixSha256 Schema.components wideSeven sevenSetup oneRipemd160 oneHmac
          Schema.commitments .panics 1 sampleParams sampleWorld sampleSession maxRoundsPerSession 0
          sampleSession.initialHash
          (roundEvents skippedTranscript
            (.ok .theirProofsList :: .ok .restartRound :: roundEvents signedTranscript [])) =
        (.error fault,
          [⟨some skippedTranscript, none⟩, ⟨some signedTranscript, some sampleSignatures.2⟩]) := by
    unfold maxRoundsPerSession playRounds
    rw [hFirst]
    unfold playRounds
    dsimp only
    rw [hSecond]
  dsimp only
  rw [hPlayed]
  rfl

theorem wideSeven_short (bytes : List UInt8) (point : ZMod 7)
    (hParse : wideSeven.parsePoint bytes = .ok point) : bytes.length ≤ 65 := by
  change wideParse bytes = .ok point at hParse
  unfold wideParse at hParse
  split at hParse
  · rename_i hLength
    omega
  · cases hParse

theorem schema_shortScripts : Schema.components.ShortScripts := by
  intro bytes component output hDecode hOutput
  change Schema.decoded (Schema.decodeComponent bytes) = _ at hDecode
  unfold Schema.decoded at hDecode
  split at hDecode
  · rename_i message hMessage
    rw [Except.ok.inj hDecode] at hMessage
    unfold Schema.decodeComponent at hMessage
    rcases Option.bind_eq_some_iff.mp hMessage with ⟨⟨salt, rest⟩, hSalt, hMessage⟩
    rcases Option.bind_eq_some_iff.mp hMessage with ⟨part, hPart, hMessage⟩
    rw [← Option.some.inj hMessage] at hOutput
    change part = some (.output output) at hOutput
    have hRest := (Protobuf.length_le_of_takeBytesField hSalt).2
    unfold Schema.decodePart at hPart
    split at hPart
    · rw [← Option.some.inj hPart] at hOutput
      cases hOutput
    split at hPart
    · rcases Option.map_eq_some_iff.mp hPart with ⟨input, -, hSame⟩
      rw [hOutput] at hSame
      cases hSame
    split at hPart
    · rename_i inner after hInner
      rcases Option.map_eq_some_iff.mp hPart with ⟨found, hFound, hSame⟩
      rw [hOutput] at hSame
      cases hSame
      have hField := (Protobuf.length_le_of_takeBytesField hInner).1
      unfold Schema.decodeOutput at hFound
      rcases Option.bind_eq_some_iff.mp hFound with ⟨⟨script, left⟩, hScript, hFound⟩
      rcases Option.bind_eq_some_iff.mp hFound with ⟨⟨amount, last⟩, -, hFound⟩
      rw [← Option.some.inj hFound]
      have hShort := (Protobuf.length_le_of_takeBytesField hScript).1
      change script.length ≤ bytes.length
      omega
    · rcases Option.map_eq_some_iff.mp hPart with ⟨blank, -, hSame⟩
      rw [hOutput] at hSame
      cases hSame
  · cases hDecode

/- A fusion of two rounds, of which the second is signed. -/
theorem fusion_signs_safely_sample :
    SafeRun Schema.components wideSeven prefixSha256 oneRipemd160 oneHmac 1 sampleParams
      sampleRun :=
  fusion_signs_safely Schema.components wideSeven sevenSetup prefixSha256 oneRipemd160 oneHmac
    Schema.commitments .panics 1 wideSeven_short schema_shortScripts sampleParams sampleWorld
    sampleEvents

/-
  The first round skips its signatures and comes without a hash, and after it restarted the wallet
  signs.
-/
theorem skipped_round_is_followed_by_signatures :
    (∀ bytes point, wideSeven.parsePoint bytes = .ok point → bytes.length ≤ 65) ∧
    Schema.components.ShortScripts ∧
    ¬ ∀ front record back transcript, sampleRun.rounds = front ++ record :: back → record.transcript
      = some transcript → transcript.skipSignatures = true → ∀ later ∈ back, later.signed =
      none := by
  refine ⟨wideSeven_short, schema_shortScripts, ?_⟩
  intro hSilent
  rcases sampleRounds with ⟨outcome, hRun⟩
  have hLater := hSilent [] _ _ skippedTranscript (by rw [hRun]; rfl) rfl rfl _ List.mem_cons_self
  cases hLater

end OptnWallet.Fusion
