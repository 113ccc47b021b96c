import OptnWallet.Nostr.Rendezvous

/-
  What a step of a negotiation can do.  An own round grows by acknowledgments and starts once; a
  proposal is ignored or held and acknowledged; an attempt is left; and a round is entered by the
  start of the held proposal or by own starts.

  Main declarations:
    * `Nostr.StepEffect`
    * `Nostr.step_effect`
-/

--- Effects

namespace OptnWallet.Nostr

variable (params : FusionRendezvousParams)

/- Messages that neither acknowledge nor start a round. -/
def Quiet (sent : Outgoing) : Prop :=
  (∀ peer session network tier epoch,
        (peer, RendezvousMessage.ack session network tier epoch) ∉ sent) ∧
    ∀ peer round, (peer, RendezvousMessage.start round) ∉ sent

/- The starts of an own round, which all of its players acknowledged. -/
structure Started (next : CoordinatorState) (sent : Outgoing) : Prop where
  yielded : next.yielded = none
  starting : next.starting = true
  complete : next.acknowledgments.insertionSort (· ≤ ·) = next.participants
  sent_eq :
    sent = (next.others params).map
        (fun peer => (peer, .start (params.roundOf next.session next.participants)))

/- An own round after a step that does not end the attempt and does not yield. -/
structure Grown (event : RendezvousEvent) (before next : CoordinatorState) (sent : Outgoing) :
    Prop where
  session : next.session = before.session
  participants : next.participants = before.participants
  yielded : next.yielded = before.yielded
  acknowledgments :
    ∀ peer ∈ next.acknowledgments,
    peer ∈ before.acknowledgments ∨
      ∃ network tier epoch, event = .message peer (.ack before.session network tier epoch)
  sent : next.starting = before.starting ∧ Quiet sent ∨ Started params next sent

inductive StepEffect : Negotiation → RendezvousEvent → Negotiation → Outgoing → Prop where
  | goes {attempt : Nat} {self next : CoordinatorState} {event : RendezvousEvent} {sent : Outgoing}
      (grown : Grown params event self next sent) :
      StepEffect (.coordinating attempt self) event (.coordinating attempt next) sent
  | yields {attempt : Nat} {self : CoordinatorState} {sender : String} {round : RoundProposal}
      (taken : self.yieldsTo params sender round = true) :
      StepEffect (.coordinating attempt self) (.message sender (.proposal round))
        (.coordinating attempt { self with yielded := some (sender, round) })
        [(sender, params.ackOf round.session)]
  | waits {attempt : Nat} {self : ParticipantState} {event : RendezvousEvent} {sent : Outgoing}
      (reminds : sent = [] ∨ ∃ held,
            self.accepted = some held ∧
              event = .resendAck ∧
              sent = [(held.1, params.ackOf held.2.session)]) : 
      StepEffect (.participating attempt self) event (.participating attempt self) sent
  | accepts {attempt : Nat} {self : ParticipantState} {sender : String} {round : RoundProposal}
      (taken : self.accepts params sender round = true) :
      StepEffect (.participating attempt self) (.message sender (.proposal round))
        (.participating attempt { self with accepted := some (sender, round) })
        [(sender, params.ackOf round.session)]
  | drops {attempt : Nat} {self next : ParticipantState} {sender session network : String}
      {tier epoch : Int}
      {remaining : List String}
      (dropped : next.accepted = none) :
      StepEffect (.participating attempt self)
        (.message sender (.shrink session network tier epoch remaining))
        (.participating attempt next) []
  | pauses {state : Negotiation} {event : RendezvousEvent} {attempt : Nat}
      {candidates : List String} :
      StepEffect state event (.pausing attempt candidates) []
  | rejects {state : Negotiation} {event : RendezvousEvent} {error : String} {sent : Outgoing}
      (quiet : Quiet sent) :
      StepEffect state event (.rejected error) sent
  | enters {state : Negotiation} {sender : String} {round : RoundProposal}
      {entered : NegotiatedFusionRound}
      (started : enteredRound params state.held sender round = some entered) :
      StepEffect state (.message sender (.start round)) (.resolved entered) []
  | leads {attempt : Nat} {self : CoordinatorState} (starting : self.starting = true) :
      StepEffect (.coordinating attempt self) .startsSent (.resolved (self.ownRound params)) []
  | begins {attempt : Nat} {candidates : List String} {session : String} {expired : Bool} :
      StepEffect (.pausing attempt candidates) (.resume session expired)
        (Negotiation.begin params attempt candidates session expired) []
  | stays {state : Negotiation} {event : RendezvousEvent} :
      StepEffect state event state []

--- Steps

variable {params}

theorem quiet_nil : Quiet [] :=
  ⟨fun _ _ _ _ _ hMem => List.not_mem_nil hMem, fun _ _ hMem => List.not_mem_nil hMem⟩

theorem quiet_append {first second : Outgoing} (hFirst : Quiet first) (hSecond : Quiet second) :
    Quiet (first ++ second) := by
  constructor
  · intro peer session network tier epoch hMem
    rcases List.mem_append.mp hMem with hIn | hIn
    · exact hFirst.1 peer session network tier epoch hIn
    · exact hSecond.1 peer session network tier epoch hIn
  · intro peer round hMem
    rcases List.mem_append.mp hMem with hIn | hIn
    · exact hFirst.2 peer round hIn
    · exact hSecond.2 peer round hIn

/- One message to each of some peers. -/
theorem quiet_map {peers : List String} {message : RendezvousMessage}
    (hAck : ∀ session network tier epoch, message ≠ .ack session network tier epoch)
    (hStart : ∀ round, message ≠ .start round) :
    Quiet (peers.map (fun peer => (peer, message))) := by
  constructor
  · intro peer session network tier epoch hMem
    rcases List.mem_map.mp hMem with ⟨other, -, hSame⟩
    exact hAck _ _ _ _ (Prod.mk.inj hSame).2
  · intro peer round hMem
    rcases List.mem_map.mp hMem with ⟨other, -, hSame⟩
    exact hStart _ (Prod.mk.inj hSame).2

namespace CoordinatorState

variable (self : CoordinatorState)

theorem quiet_publishProposal : Quiet (self.publishProposal params) := by
  unfold publishProposal
  apply quiet_map
  · intro session network tier epoch hSame
    cases hSame
  · intro round hSame
    cases hSame

theorem quiet_abortNotice (error : String) : Quiet (self.abortNotice params error) := by
  unfold abortNotice
  dsimp only
  split
  · constructor
    · intro peer session network tier epoch hMem
      cases List.mem_singleton.mp hMem
    · intro peer round hMem
      cases List.mem_singleton.mp hMem
  · apply quiet_map
    · intro session network tier epoch hSame
      cases hSame
    · intro round hSame
      cases hSame

theorem quiet_shrinkNotices (remaining : List String) :
    Quiet (self.shrinkNotices params remaining) := by
  unfold shrinkNotices
  apply quiet_append
  · apply quiet_map
    · intro session network tier epoch hSame
      cases hSame
    · intro round hSame
      cases hSame
  · apply quiet_map
    · intro session network tier epoch hSame
      cases hSame
    · intro round hSame
      cases hSame

/- Nothing happens to the own round. -/
theorem grown_refl (event : RendezvousEvent) (self : CoordinatorState) {sent : Outgoing}
    (hQuiet : Quiet sent) : Grown params event self self sent :=
  { session := rfl
    participants := rfl
    yielded := rfl
    acknowledgments := fun _ hMem => Or.inl hMem
    sent := Or.inl ⟨rfl, hQuiet⟩ }

/- The own round is started, or it is left as it is. -/
theorem startOwnRound_cases (params : FusionRendezvousParams) (self : CoordinatorState) :
    self.startOwnRound params = (self, []) ∨
      (self.startOwnRound params).1 = { self with starting := true } ∧
        Started params (self.startOwnRound params).1 (self.startOwnRound params).2 := by
  unfold startOwnRound
  dsimp only
  split
  · exact Or.inl rfl
  · rename_i hReady
    simp only [not_or, not_lt, not_not, Bool.not_eq_true, Option.isSome_eq_false_iff,
      Option.isNone_iff_eq_none] at hReady
    rcases hReady with ⟨hYielded, -, -, hSame⟩
    right
    refine ⟨rfl, hYielded, rfl, hSame, ?_⟩
    dsimp only
    unfold others
    rw [hSame]

theorem grown_of_startOwnRound {event : RendezvousEvent} {self noted : CoordinatorState}
    (hGrown : Grown params event self noted []) :
    Grown params event self (noted.startOwnRound params).1 (noted.startOwnRound params).2 := by
  rcases startOwnRound_cases params noted with hSame | ⟨hNext, hStarted⟩
  · rw [hSame]
    exact hGrown
  · constructor
    · rw [hNext]
      exact hGrown.session
    · rw [hNext]
      exact hGrown.participants
    · rw [hNext]
      exact hGrown.yielded
    · rw [hNext]
      exact hGrown.acknowledgments
    · exact Or.inr hStarted

theorem grown_settle :
    Grown params .settle self
      (CoordinatorState.startOwnRound params { self with settlePassed := true }).1
      (CoordinatorState.startOwnRound params { self with settlePassed := true }).2 := by
  apply grown_of_startOwnRound
  exact
    { session := rfl
      participants := rfl
      yielded := rfl
      acknowledgments := fun _ hMem => Or.inl hMem
      sent := Or.inl ⟨rfl, quiet_nil⟩ }

theorem grown_acknowledge {self : CoordinatorState} {sender session network : String}
    {tier epoch : Int} (hSession : session = self.session) :
    Grown params (.message sender (.ack session network tier epoch)) self
      (self.acknowledge params sender).1 (self.acknowledge params sender).2 := by
  have hNoted :
      Grown params (.message sender (.ack session network tier epoch)) self
        { self with
          acknowledgments :=
            if sender ∈ self.acknowledgments then self.acknowledgments
            else self.acknowledgments ++ [sender] } [] := by
    constructor
    · rfl
    · rfl
    · rfl
    · intro peer hMem
      dsimp only at hMem
      split at hMem
      · exact Or.inl hMem
      · rcases List.mem_append.mp hMem with hOld | hNew
        · exact Or.inl hOld
        · right
          rw [List.mem_singleton.mp hNew, hSession]
          exact ⟨network, tier, epoch, rfl⟩
    · exact Or.inl ⟨rfl, quiet_nil⟩
  unfold acknowledge
  dsimp only
  split
  · exact grown_of_startOwnRound hNoted
  · exact hNoted

theorem onMessage_effect (attempt : Nat) (self : CoordinatorState) (sender : String)
    (message : RendezvousMessage) :
    StepEffect params (.coordinating attempt self) (.message sender message)
      (self.onMessage params attempt sender message).1
      (self.onMessage params attempt sender message).2 := by
  cases message with
  | proposal round =>
    unfold onMessage
    dsimp only
    split
    · rename_i hYields
      exact .yields hYields
    · exact .stays
  | ack session network tier epoch =>
    unfold onMessage
    dsimp only
    split
    · exact .stays
    · rename_i hHeard
      simp only [not_or, not_not] at hHeard
      rcases hHeard with ⟨-, hSession, -, -⟩
      exact .goes (grown_acknowledge hSession)
  | start round =>
    unfold onMessage
    dsimp only
    split
    · rename_i entered hEntered
      exact .enters hEntered
    · exact .stays
  | shrink session network tier epoch remaining => exact .stays
  | abort session reason =>
    unfold onMessage
    dsimp only
    split
    · exact .rejects quiet_nil
    · exact .stays

theorem step_effect (attempt : Nat) (self : CoordinatorState) (event : RendezvousEvent) :
    StepEffect params (.coordinating attempt self) event (self.step params attempt event).1
      (self.step params attempt event).2 := by
  unfold step
  cases event with
  | message sender message => exact onMessage_effect attempt self sender message
  | repropose =>
    dsimp only
    split
    · exact .stays
    · exact .goes (grown_refl _ self (quiet_publishProposal self))
  | settle =>
    dsimp only
    exact .goes (grown_settle self)
  | ackTimeout =>
    unfold ackTimeout
    dsimp only
    split
    · exact .stays
    · split
      · apply StepEffect.goes
        exact
          { session := rfl
            participants := rfl
            yielded := rfl
            acknowledgments := fun _ hMem => Or.inl hMem
            sent := Or.inl ⟨rfl, quiet_shrinkNotices self _⟩ }
      · exact .rejects (quiet_abortNotice self _)
  | startsSent =>
    dsimp only
    split
    · rename_i hStarting
      exact .leads hStarting
    · exact .stays
  | startsFailed error =>
    dsimp only
    split
    · exact .rejects (quiet_abortNotice self _)
    · exact .stays
  | shrinkSent =>
    dsimp only
    split
    · exact .pauses
    · exact .stays
  | ackFailed error =>
    dsimp only
    split
    · exact .rejects quiet_nil
    · exact .stays
  | cancel => exact .rejects (quiet_abortNotice self _)
  | resendAck => exact .stays
  | proposalTimeout => exact .stays
  | startTimeout => exact .stays
  | resume session expired => exact .stays

end CoordinatorState

namespace ParticipantState

theorem failed_effect (state : Negotiation) (event : RendezvousEvent) (attempt : Nat)
    (self : ParticipantState) (error : String) :
    StepEffect params state event (Negotiation.failed attempt self error) [] := by
  unfold Negotiation.failed
  split
  · exact .pauses
  · exact .rejects quiet_nil

theorem onMessage_effect (attempt : Nat) (self : ParticipantState) (sender : String)
    (message : RendezvousMessage) :
    StepEffect params (.participating attempt self) (.message sender message)
      (self.onMessage params attempt sender message).1
      (self.onMessage params attempt sender message).2 := by
  cases message with
  | proposal round =>
    unfold onMessage
    dsimp only
    split
    · rename_i hAccepts
      exact .accepts hAccepts
    · exact .stays
  | ack session network tier epoch => exact .stays
  | start round =>
    unfold onMessage
    dsimp only
    split
    · rename_i entered hEntered
      exact .enters hEntered
    · exact .stays
  | shrink session network tier epoch remaining =>
    unfold onMessage onShrink Negotiation.shrunk
    dsimp only
    split
    · split
      · split
        · exact .pauses
        · exact .drops rfl
      · exact .stays
    · exact .stays
  | abort session reason =>
    unfold onMessage
    dsimp only
    split
    · exact failed_effect _ _ attempt self _
    · exact .stays

theorem step_effect (attempt : Nat) (self : ParticipantState) (event : RendezvousEvent) :
    StepEffect params (.participating attempt self) event (self.step params attempt event).1
      (self.step params attempt event).2 := by
  unfold step
  cases event with
  | message sender message => exact onMessage_effect attempt self sender message
  | resendAck =>
    dsimp only
    split
    · rename_i coordinator round hAccepted
      exact .waits (Or.inr ⟨_, hAccepted, rfl, rfl⟩)
    · exact .stays
  | proposalTimeout =>
    dsimp only
    split
    · exact failed_effect _ _ attempt self _
    · exact .stays
  | startTimeout =>
    dsimp only
    exact failed_effect _ _ attempt self _
  | cancel =>
    dsimp only
    exact failed_effect _ _ attempt self _
  | repropose => exact .stays
  | settle => exact .stays
  | ackTimeout => exact .stays
  | startsSent => exact .stays
  | startsFailed error => exact .stays
  | shrinkSent => exact .stays
  | ackFailed error => exact .stays
  | resume session expired => exact .stays

end ParticipantState

theorem step_effect (params : FusionRendezvousParams) (state : Negotiation)
    (event : RendezvousEvent) :
    StepEffect params state event (state.step params event).1 (state.step params event).2 := by
  cases state with
  | coordinating attempt self => exact CoordinatorState.step_effect attempt self event
  | participating attempt self => exact ParticipantState.step_effect attempt self event
  | pausing attempt candidates =>
    unfold Negotiation.step
    cases event with
    | resume session expired => exact .begins
    | _ => exact .stays
  | resolved round => exact .stays
  | rejected error => exact .stays

/- An attempt begins with nothing held, and with nobody but this peer in its own round. -/
theorem begin_cases (params : FusionRendezvousParams) (attempt : Nat) (candidates : List String)
    (session : String) (expired : Bool) :
    (∃ error, Negotiation.begin params attempt candidates session expired = .rejected error) ∨
    (∃ self,
        Negotiation.begin params attempt candidates session expired = .coordinating attempt self ∧
          electCoordinator candidates = some params.myPubkey ∧
          self.session = session ∧
          self.acknowledgments = [params.myPubkey] ∧
          self.yielded = none ∧
          self.starting = false) ∨
    ∃ self,
      Negotiation.begin params attempt candidates session expired = .participating attempt self ∧
        self.accepted = none := by
  unfold Negotiation.begin
  split
  · exact Or.inl ⟨_, rfl⟩
  · split
    · exact Or.inl ⟨_, rfl⟩
    · rename_i coordinator hElected
      split
      · exact Or.inl ⟨_, rfl⟩
      · split
        · rename_i hMe
          rw [hMe] at hElected
          split
          · exact Or.inr (Or.inl ⟨_, rfl, hElected, rfl, rfl, rfl, rfl⟩)
          · exact Or.inl ⟨_, rfl⟩
        · exact Or.inr (Or.inr ⟨_, rfl, rfl⟩)

end OptnWallet.Nostr
