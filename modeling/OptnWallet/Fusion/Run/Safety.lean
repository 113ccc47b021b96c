import OptnWallet.Fusion.Run.Delivery

/-
  Whatever a server sends over the rounds of a fusion, the wallet signs its own inputs of a
  transaction that pays every planned output, or nothing.

  Main declarations:
    * `Fusion.Transcript.Refused`
    * `Fusion.SafeRun`
    * `Fusion.playRounds_safe`
-/

--- Safe Runs

namespace OptnWallet.Fusion

open StagedUpdate
open Overflow (Mode)
open Schnorr (Curve)

variable {n : Nat} {Point : Type} [AddCommGroup Point] [Module (ZMod n) Point] [DecidableEq Point]

section Transcripts

variable (sha256 : List UInt8 → Vector UInt8 32)

/- The hash of the transcript as this player has it. -/
def Transcript.ownHash (self : Transcript n Point) : Vector UInt8 32 :=
  calcRoundHash sha256 self.lastHash self.round.roundPubkey.bytes self.round.serverTime
    self.round.allCommitments self.round.allComponents

/- The server declared another hash, or none for a round that is to be signed. -/
def Transcript.Refused (self : Transcript n Point) : Prop :=
  (∃ declared, self.declaredHash = some declared ∧ declared ≠ (self.ownHash sha256).toList) ∨
    self.declaredHash = none ∧ self.skipSignatures = false

end Transcripts

/- A decoded script is a part of the bytes that were decoded. -/
def Wire.ShortScripts (components : Wire Component) : Prop :=
  ∀ bytes component output,
    components.decode bytes = .ok component →
    component.component = some (.output output) →
    output.scriptpubkey.length ≤ bytes.length

section Statements

variable (components : Wire Component) (curve : Curve n Point)
variable (sha256 : List UInt8 → Vector UInt8 32) (ripemd160 : List UInt8 → Vector UInt8 20)
variable (hmac : List UInt8 → List UInt8 → Vector UInt8 32) (fuel : Nat) (params : FusionRunParams)

/- What a round signed is safe, over the transcript it was told, whose hash was declared. -/
def SignsSafely (plan : FusionTierPlan) (record : RoundRecord n Point) (tx : FusionTx)
    (messages : List (Option CovertSignature)) : Prop :=
  record.signed = some messages ∧ ∃ transcript,
      record.transcript = some transcript ∧ transcript.skipSignatures = false ∧
        transcript.declaredHash = some (transcript.ownHash sha256).toList ∧
        SafeSigning curve sha256 ripemd160 hmac components fuel params.inputs
          (plannedOutputs params.outputScripts plan) transcript (transcript.ownHash sha256) tx
          messages

/-
  Every batch of signatures is safe.  A round that skips its signatures signs nothing, a refused
  transcript ends the fusion without a signature, and a transaction that is handed out is the
  signed one of the last round.
-/
structure SafeRounds (plan : FusionTierPlan) (outcome : Except (Fault String) FusionOutcome)
    (rounds : List (RoundRecord n Point)) : Prop where
  signs :
    ∀ record ∈ rounds,
    ∀ messages,
      record.signed = some messages →
        ∃ tx, SignsSafely components curve sha256 ripemd160 hmac fuel params plan record tx messages
  skips :
    ∀ record ∈ rounds,
    ∀ transcript,
      record.transcript = some transcript → transcript.skipSignatures = true → record.signed = none
  refuses :
    ∀ front record back transcript,
    rounds = front ++ record :: back → record.transcript = some transcript →
      transcript.Refused sha256 →
      record.signed = none ∧ back = [] ∧ ∃ fault, outcome = .error fault
  delivers :
    ∀ found,
    outcome = .ok found → found.ok = true →
      ∃ record,
        rounds.getLast? = some record ∧ ∃ tx messages signatures bytes,
            SignsSafely components curve sha256 ripemd160 hmac fuel params plan record tx messages ∧
              Delivers curve sha256 ripemd160 tx signatures found bytes

/- The plan that is played is an accepted one of the wallet. -/
structure SafeRun (run : FusionRun n Point) : Prop where
  idle : run.plan = none → run.rounds = [] ∧ ∀ found, run.outcome = .ok found → found.ok = false
  planned :
    ∀ plan,
    run.plan = some plan →
      (∃ hello tier indexed, indexPlans params hello = .ok indexed ∧ indexed.get? tier = some plan)
          ∧
        SafeRounds components curve sha256 ripemd160 hmac fuel params plan run.outcome run.rounds

end Statements

--- One Round

variable {components : Wire Component} {curve : Curve n Point} {setup : Pedersen.Setup curve}
variable {sha256 : List UInt8 → Vector UInt8 32} {ripemd160 : List UInt8 → Vector UInt8 20}
variable {hmac : List UInt8 → List UInt8 → Vector UInt8 32} {commitments : Wire InitialCommitment}
variable {mode : Mode} {fuel : Nat} {params : FusionRunParams} {world : World n}
variable {session : FusionSession} {transcript : Transcript n Point}

omit [AddCommGroup Point] [Module (ZMod n) Point] [DecidableEq Point] in
/- A transcript whose places were found was not refused. -/
theorem locate_accepts {located : Located} (hLocate : locate sha256 transcript = .ok located) :
    located.sessionHash = transcript.ownHash sha256 ∧ ¬ transcript.Refused sha256 := by
  unfold locate at hLocate
  rcases bind_eq_ok_iff.mp hLocate with ⟨_, -, hLocate⟩
  rcases bind_eq_ok_iff.mp hLocate with ⟨_, -, hLocate⟩
  rcases bind_eq_ok_iff.mp hLocate with ⟨_, -, hLocate⟩
  rcases bind_eq_ok_iff.mp hLocate with ⟨_, -, hLocate⟩
  rcases bind_eq_ok_iff.mp hLocate with ⟨hash, hHash, hLocate⟩
  rw [← Except.ok.inj hLocate]
  unfold acceptHash at hHash
  dsimp only at hHash
  split at hHash
  · rename_i declared hDeclared
    split at hHash
    · cases hHash
    · rename_i hSame
      rw [not_not] at hSame
      refine ⟨(Except.ok.inj hHash).symm, ?_⟩
      rintro (⟨other, hOther, hNot⟩ | ⟨hNone, -⟩)
      · rw [hDeclared] at hOther
        rw [← Option.some.inj hOther] at hNot
        exact hNot hSame
      · rw [hDeclared] at hNone
        cases hNone
  · rename_i hDeclared
    split at hHash
    · rename_i hSkip
      refine ⟨(Except.ok.inj hHash).symm, ?_⟩
      rintro (⟨other, hOther, -⟩ | ⟨-, hSigned⟩)
      · rw [hDeclared] at hOther
        cases hOther
      · rw [hSkip] at hSigned
        cases hSigned
    · cases hHash

omit [AddCommGroup Point] [Module (ZMod n) Point] [DecidableEq Point] in
theorem declared_of_accepted (hAccepted : ¬ transcript.Refused sha256)
    (hSkip : transcript.skipSignatures = false) :
    transcript.declaredHash = some (transcript.ownHash sha256).toList := by
  cases hDeclared : transcript.declaredHash with
  | none => exact absurd (Or.inr ⟨hDeclared, hSkip⟩) hAccepted
  | some declared =>
    by_cases hSame : declared = (transcript.ownHash sha256).toList
    · rw [hSame]
    · exact absurd (Or.inl ⟨declared, hDeclared, hSame⟩) hAccepted

/- The counts and scripts of a shared list fit a transaction. -/
theorem rebuilt_fits (hScripts : components.ShortScripts) {list : ReceivedList}
    {sessionHash : Vector UInt8 32} {tx : FusionTx}
    (hTx : Rebuilt components list.blobs sessionHash tx) :
    tx.inputs.length < 2 ^ 64 ∧
    tx.outputs.length < 2 ^ 64 ∧
    ∀ output ∈ tx.outputs, output.script.length < 2 ^ 64 := by
  have hCount : list.blobs.length < 2 ^ 32 := by
    unfold ReceivedList.blobs
    rw [List.length_map]
    exact list.length_lt
  have hInputs := List.length_filterMap_le (inputOf components) list.blobs
  have hOutputs := List.length_filterMap_le (outputOf components) list.blobs
  refine ⟨?_, ?_, ?_⟩
  · rw [← hTx.inputs, List.length_map] at hInputs
    omega
  · rw [hTx.outputs, List.length_cons, List.length_map]
    omega
  · intro output hMem
    rw [hTx.outputs] at hMem
    rcases List.mem_cons.mp hMem with rfl | hShared
    · have hLength : (FusionTx.marker sessionHash).script.length = 39 := by
        unfold FusionTx.marker fuseId
        simp
      omega
    · rcases List.mem_map.mp hShared with ⟨shared, hPart, rfl⟩
      rcases List.mem_filterMap.mp hPart with ⟨bytes, hBytes, hOutput⟩
      rcases List.mem_map.mp hBytes with ⟨received, -, rfl⟩
      have hShort : shared.scriptpubkey.length ≤ received.bytes.length := by
        unfold outputOf asOutput at hOutput
        split at hOutput
        · rename_i found hPart
          cases hOutput
          unfold partOf at hPart
          split at hPart
          · rename_i component hDecode
            exact hScripts _ _ _ hDecode hPart
          · cases hPart
        · cases hOutput
      have hFrame := received.length_lt
      change shared.scriptpubkey.length < 2 ^ 64
      omega

/- What each way out of a round left behind. -/
inductive Played (components : Wire Component) (curve : Curve n Point)
    (sha256 : List UInt8 → Vector UInt8 32) (ripemd160 : List UInt8 → Vector UInt8 20)
    (hmac : List UInt8 → List UInt8 → Vector UInt8 32) (fuel : Nat) (params : FusionRunParams)
    (plan : FusionTierPlan) (record : RoundRecord n Point) : RoundEnd → Prop where
  | unsigned (fault : Fault String) (hSigned : record.signed = none) :
      Played components curve sha256 ripemd160 hmac fuel params plan record (.failed fault)
  | skipped (transcript : Transcript n Point) (hTranscript : record.transcript = some transcript)
      (hSigned : record.signed = none)
      (hAccepted : ¬ transcript.Refused sha256)
      (finish : RoundEnd)
      (hOpen : ∀ outcome, finish ≠ .finished outcome) :
      Played components curve sha256 ripemd160 hmac fuel params plan record finish
  | signed (tx : FusionTx) (messages : List (Option CovertSignature))
      (hSafe :
        SignsSafely components curve sha256 ripemd160 hmac fuel params plan record tx messages)
      (finish : RoundEnd)
      (hDelivers : ∀ outcome, finish = .finished outcome → ∃ signatures bytes,
            Delivers curve sha256 ripemd160 tx signatures outcome bytes) : 
      Played components curve sha256 ripemd160 hmac fuel params plan record finish

variable {events : List Event}

theorem blame_open {here : RoundWorld n} {sessionHash : Vector UInt8 32} (outcome : FusionOutcome) :
    blameThenRestart here sessionHash events ≠ .finished outcome := by
  unfold blameThenRestart
  split
  · intro hSame
    cases hSame
  · intro hSame
    cases hSame

/- Only a completed transaction finishes a round. -/
theorem concluded_delivers
    (hPoints : ∀ bytes point, curve.parsePoint bytes = .ok point → bytes.length ≤ 65)
    {here : RoundWorld n} {located : Located} {tx : FusionTx}
    (hFits : tx.inputs.length < 2 ^ 64 ∧ tx.outputs.length < 2 ^ 64 ∧ ∀ output ∈ tx.outputs,
      output.script.length < 2 ^ 64) {outcome : FusionOutcome}
    (hFinish : concludeRound sha256 curve ripemd160 here located tx events = .finished outcome) :
    ∃ signatures bytes, Delivers curve sha256 ripemd160 tx signatures outcome bytes := by
  unfold concludeRound at hFinish
  split at hFinish
  · cases hFinish
  split at hFinish
  · cases hFinish
  rename_i result rest hResult
  split at hFinish
  · split at hFinish
    · rename_i found hCompleted
      cases hFinish
      rcases delivers_of_completed hPoints hFits.1 hFits.2.1 hFits.2.2 hCompleted with
        ⟨bytes, hDelivers⟩
      exact ⟨_, bytes, hDelivers⟩
    · cases hFinish
  · split at hFinish
    · cases hFinish
    · exact absurd hFinish (blame_open outcome)

variable {lastHash : Vector UInt8 32} {record : RoundRecord n Point} {finish : RoundEnd}

theorem played_of_playRound
    (hPoints : ∀ bytes point, curve.parsePoint bytes = .ok point → bytes.length ≤ 65)
    (hScripts : components.ShortScripts)
    (hSession : session.outputScripts = params.outputScripts.take session.plan.outputValues.length)
    {number : Nat}
    (hPlay :
        playRound sha256 components curve setup ripemd160 hmac commitments mode fuel params world
            session number lastHash events = (record, finish)) :
    Played components curve sha256 ripemd160 hmac fuel params session.plan record finish := by
  unfold playRound at hPlay
  dsimp only at hPlay
  split at hPlay
  · cases hPlay
    exact Played.unsigned _ rfl
  split at hPlay
  · cases hPlay
    exact Played.unsigned _ rfl
  rename_i transcript rest hShared
  split at hPlay
  · cases hPlay
    exact Played.unsigned _ rfl
  rename_i located hLocate
  rcases locate_accepts hLocate with ⟨hHash, hAccepted⟩
  split at hPlay
  · cases hPlay
    exact Played.skipped transcript rfl rfl hAccepted _ blame_open
  rename_i hSkip
  split at hPlay
  · cases hPlay
    exact Played.unsigned _ rfl
  rename_i tx messages hPrepare
  cases hPlay
  have hSafe := safeSigning_of_prepare hSession hLocate hPrepare
  rw [hHash] at hSafe
  have hSigned := Bool.eq_false_of_not_eq_true hSkip
  apply Played.signed tx messages
  · exact ⟨rfl, transcript, rfl, hSigned, declared_of_accepted hAccepted hSigned, hSafe⟩
  · intro outcome hFinish
    exact concluded_delivers hPoints
      (rebuilt_fits hScripts (rebuilt_of_fromComponents hSafe.rebuilt)) hFinish

--- All Rounds

variable {plan : FusionTierPlan}

section

variable (hPlayed : Played components curve sha256 ripemd160 hmac fuel params plan record finish)
include hPlayed

/- What a round left behind is what the statements ask of it. -/
theorem played_skips (hTranscript : record.transcript = some transcript)
    (hSkip : transcript.skipSignatures = true) : record.signed = none := by
  cases hPlayed with
  | unsigned fault hSigned => exact hSigned
  | skipped _ _ hSigned => exact hSigned
  | signed tx messages hSafe =>
    rcases hSafe with ⟨-, other, hOther, hSigned, -⟩
    rw [hTranscript] at hOther
    rw [Option.some.inj hOther, hSigned] at hSkip
    cases hSkip

theorem played_refuses (hTranscript : record.transcript = some transcript)
    (hRefused : transcript.Refused sha256) :
    record.signed = none ∧ ∃ fault, finish = .failed fault := by
  cases hPlayed with
  | unsigned fault hSigned => exact ⟨hSigned, fault, rfl⟩
  | skipped other hOther _ hAccepted =>
    rw [hTranscript] at hOther
    rw [← Option.some.inj hOther] at hAccepted
    exact absurd hRefused hAccepted
  | signed tx messages hSafe =>
    rcases hSafe with ⟨-, other, hOther, hSigned, hDeclared, -⟩
    rw [hTranscript] at hOther
    rw [← Option.some.inj hOther] at hSigned hDeclared
    rcases hRefused with ⟨found, hFound, hNot⟩ | ⟨hNone, -⟩
    · rw [hDeclared] at hFound
      exact absurd (Option.some.inj hFound).symm hNot
    · rw [hDeclared] at hNone
      cases hNone

theorem played_signs {messages : List (Option CovertSignature)}
    (hSigned : record.signed = some messages) :
    ∃ tx,
    SignsSafely components curve sha256 ripemd160 hmac fuel params plan record tx messages := by
  cases hPlayed with
  | unsigned fault hNone =>
    rw [hNone] at hSigned
    cases hSigned
  | skipped _ _ hNone =>
    rw [hNone] at hSigned
    cases hSigned
  | signed tx found hSafe =>
    have hSame := hSafe.1
    rw [hSigned] at hSame
    rw [Option.some.inj hSame]
    exact ⟨tx, hSafe⟩

end

theorem played_delivers {outcome : FusionOutcome}
    (hPlayed :
        Played components curve sha256 ripemd160 hmac fuel params plan record (.finished outcome)) :
    ∃ tx messages signatures bytes,
    SignsSafely components curve sha256 ripemd160 hmac fuel params plan record tx messages ∧
      Delivers curve sha256 ripemd160 tx signatures outcome bytes := by
  cases hPlayed with
  | skipped _ _ _ _ _ hOpen => exact absurd rfl (hOpen outcome)
  | signed tx messages hSafe _ hDelivers =>
    rcases hDelivers outcome rfl with ⟨signatures, bytes, hDelivered⟩
    exact ⟨tx, messages, signatures, bytes, hSafe, hDelivered⟩

variable {outcome : Except (Fault String) FusionOutcome}

/- The rounds end with this one. -/
theorem safeRounds_last
    (hPlayed : Played components curve sha256 ripemd160 hmac fuel params plan record finish)
    (hOutcome : (∃ fault, finish = .failed fault ∧ outcome = .error fault) ∨ ∃ found,
        finish = .finished found ∧ outcome = .ok found) :
    SafeRounds components curve sha256 ripemd160 hmac fuel params plan outcome [record] := by
  constructor
  · intro other hMem messages hSigned
    rw [List.mem_singleton.mp hMem] at hSigned ⊢
    exact played_signs hPlayed hSigned
  · intro other hMem transcript hTranscript hSkip
    rw [List.mem_singleton.mp hMem] at hTranscript ⊢
    exact played_skips hPlayed hTranscript hSkip
  · intro front other back transcript hSplit hTranscript hRefused
    cases front with
    | nil =>
      cases hSplit
      rcases played_refuses hPlayed hTranscript hRefused with ⟨hSigned, fault, hFinish⟩
      refine ⟨hSigned, rfl, ?_⟩
      rcases hOutcome with ⟨other, hOther, hHere⟩ | ⟨found, hFound, -⟩
      · exact ⟨other, hHere⟩
      · rw [hFinish] at hFound
        cases hFound
    | cons first front =>
      cases front with
      | nil => cases hSplit
      | cons second front => cases hSplit
  · intro found hFound _
    refine ⟨record, rfl, ?_⟩
    rcases hOutcome with ⟨fault, -, hHere⟩ | ⟨other, hOther, hHere⟩
    · rw [hHere] at hFound
      cases hFound
    · rw [hHere] at hFound
      cases hFound
      rw [hOther] at hPlayed
      exact played_delivers hPlayed

/- A round that restarted was not refused. -/
theorem safeRounds_cons
    (hPlayed :
      Played components curve sha256 ripemd160 hmac fuel params plan record
        (.restarted lastHash events)) {rounds : List (RoundRecord n Point)}
    (hRounds : SafeRounds components curve sha256 ripemd160 hmac fuel params plan outcome rounds) :
    SafeRounds components curve sha256 ripemd160 hmac fuel params plan outcome
      (record :: rounds) := by
  constructor
  · intro other hMem messages hSigned
    rcases List.mem_cons.mp hMem with rfl | hRest
    · exact played_signs hPlayed hSigned
    · exact hRounds.signs other hRest messages hSigned
  · intro other hMem transcript hTranscript hSkip
    rcases List.mem_cons.mp hMem with rfl | hRest
    · exact played_skips hPlayed hTranscript hSkip
    · exact hRounds.skips other hRest transcript hTranscript hSkip
  · intro front other back transcript hSplit hTranscript hRefused
    cases front with
    | nil =>
      cases hSplit
      rcases played_refuses hPlayed hTranscript hRefused with ⟨-, fault, hFinish⟩
      cases hFinish
    | cons first front =>
      cases hSplit
      exact hRounds.refuses front other back transcript rfl hTranscript hRefused
  · intro found hFound hOk
    rcases hRounds.delivers found hFound hOk with ⟨last, hLast, hRest⟩
    refine ⟨last, ?_, hRest⟩
    rw [List.getLast?_cons, hLast]
    rfl

/- By induction over the rounds that are left. -/
theorem playRounds_safe
    (hPoints : ∀ bytes point, curve.parsePoint bytes = .ok point → bytes.length ≤ 65)
    (hScripts : components.ShortScripts)
    (hSession : session.outputScripts = params.outputScripts.take session.plan.outputValues.length)
    {remaining number : Nat} {rounds : List (RoundRecord n Point)}
    (hPlay :
        playRounds sha256 components curve setup ripemd160 hmac commitments mode fuel params world
            session remaining number lastHash events = (outcome, rounds)) :
    SafeRounds components curve sha256 ripemd160 hmac fuel params session.plan outcome rounds := by
  induction remaining generalizing number lastHash events outcome rounds with
  | zero =>
    unfold playRounds at hPlay
    cases hPlay
    constructor
    · exact List.forall_mem_nil _
    · exact List.forall_mem_nil _
    · intro front other back transcript hSplit
      cases List.append_eq_nil_iff.mp hSplit.symm |>.2
    · intro found hFound hOk
      rw [← Except.ok.inj hFound] at hOk
      cases hOk
  | succ remaining ih =>
    unfold playRounds at hPlay
    cases hRound : playRound sha256 components curve setup ripemd160 hmac commitments mode fuel
      params world session number lastHash events with
    | mk record finish =>
      have hPlayed := played_of_playRound hPoints hScripts hSession hRound
      rw [hRound] at hPlay
      cases finish with
      | failed fault =>
        cases hPlay
        exact safeRounds_last hPlayed (Or.inl ⟨fault, rfl, rfl⟩)
      | finished found =>
        cases hPlay
        exact safeRounds_last hPlayed (Or.inr ⟨found, rfl, rfl⟩)
      | restarted hash rest =>
        cases hPlay
        exact safeRounds_cons hPlayed (ih rfl)

end OptnWallet.Fusion
