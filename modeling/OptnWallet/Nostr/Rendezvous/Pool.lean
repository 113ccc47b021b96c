import OptnWallet.Library.Runs
import OptnWallet.Nostr.Rendezvous.Effects

/-
  All the peers of a pool at once, on one network and one tier, each with candidates of its own.
  What is sent may arrive at any time, in any order, more than once or never.

  Main declarations:
    * `Nostr.Pool.act`
    * `Nostr.Reaches`
    * `Nostr.Sound`
    * `Nostr.sound_of_reaches`
-/

--- Pools

namespace OptnWallet.Nostr

/- What the peers know and see. -/
structure PoolViews where
  candidates : String → List String
  epoch : String → Int
  network : String
  tier : Int
  knobs : FusionKnobs

def PoolViews.paramsOf (views : PoolViews) (peer : String) : FusionRendezvousParams :=
  { myPubkey := peer
    candidates := views.candidates peer
    network := views.network
    tier := views.tier
    epoch := views.epoch peer
    knobs := views.knobs }

/- The peers, the messages that were ever sent with their senders and receivers, and the sessions
   that were drawn. -/
structure Pool where
  nodes : String → Negotiation
  sent : List (String × String × RendezvousMessage)
  drawn : List (String × String)

/- A peer that did not begin. -/
def idle (params : FusionRendezvousParams) : Negotiation :=
  if isPubkey params.myPubkey then
    .pausing 0 (canonicalParticipants params.knobs (params.myPubkey :: params.candidates))
  else .rejected "invalid local Fusion round pubkey"

def drawnBy : RendezvousEvent → List String
  | .resume session _ => [session]
  | _ => []

namespace Pool

def initial (views : PoolViews) : Pool :=
  { nodes := fun peer => idle (views.paramsOf peer)
    sent := []
    drawn := [] }

def place (pool : Pool) (peer : String) (next : Negotiation) (sent : Outgoing)
    (draws : List String) : Pool :=
  { nodes := Function.update pool.nodes peer next
    sent := pool.sent ++ sent.map (fun out => (peer, out.1, out.2))
    drawn := pool.drawn ++ draws.map (fun session => (peer, session)) }

def act (views : PoolViews) (pool : Pool) (peer : String) (event : RendezvousEvent) : Pool :=
  let outcome := (pool.nodes peer).step (views.paramsOf peer) event
  pool.place peer outcome.1 outcome.2 (drawnBy event)

/- Nobody drew the session, and nobody acknowledged it. -/
def Fresh (pool : Pool) (session : String) : Prop :=
  (∀ peer, (peer, session) ∉ pool.drawn) ∧ ∀ peer receiver network tier epoch,
      (peer, receiver, RendezvousMessage.ack session network tier epoch) ∉ pool.sent

/- Messages were sent before they arrive, and sessions are new. -/
def Occurs (pool : Pool) (peer : String) : RendezvousEvent → Prop
  | .message sender message => (sender, peer, message) ∈ pool.sent
  | .resume session _ => pool.Fresh session
  | _ => True

end Pool

/- A peer and what happens to it. -/
abbrev PoolEvent := String × RendezvousEvent

def Pool.step (views : PoolViews) (pool : Pool) (turn : PoolEvent) : Pool :=
  pool.act views turn.1 turn.2

/- The pools of all runs. -/
def Reaches (views : PoolViews) (Admits : Pool → String → RendezvousEvent → Prop) : Pool → Prop :=
  Runs.Reached (Pool.step views) (fun pool => pool = Pool.initial views)
    (fun pool turn => pool.Occurs turn.1 turn.2 ∧ Admits pool turn.1 turn.2)

--- Rounds of a pool

namespace Pool

def Acknowledged (pool : Pool) (peer session : String) : Prop :=
  ∃ receiver network tier epoch,
    (peer, receiver, RendezvousMessage.ack session network tier epoch) ∈ pool.sent

def Committed (pool : Pool) (peer session : String) : Prop :=
  (peer, session) ∈ pool.drawn ∨ pool.Acknowledged peer session

end Pool

/- The peer may still start the session, or it has. -/
def Leading (peer session : String) : Negotiation → Prop
  | .coordinating _ self => self.session = session ∧ (self.yielded = none ∨ self.starting = true)
  | .resolved round => round.coordinator = peer ∧ round.session = session
  | _ => False

def Pool.Live (pool : Pool) (session : String) : Prop :=
  ∃ peer, Leading peer session (pool.nodes peer)

/- The session that a peer is in. -/
def current : Negotiation → Option String
  | .coordinating _ self => some (match self.yielded with
        | some held => held.2.session
        | none => self.session)
  | .participating _ self => self.accepted.map (fun held => held.2.session)
  | .resolved round => some round.session
  | .pausing _ _ => none
  | .rejected _ => none

/- The session that a peer is going into by a step. -/
def taken (params : FusionRendezvousParams) (state : Negotiation) (event : RendezvousEvent) :
    Option String :=
  match state, event with
  | .coordinating _ self, .message sender (.proposal round) =>
    if self.yieldsTo params sender round then some round.session
    else none
  | .participating _ self, .message sender (.proposal round) =>
    if self.accepts params sender round then some round.session
    else none
  | .pausing _ candidates, .resume session _ =>
    if electCoordinator candidates =
        some params.myPubkey then
      some session
    else none
  | _, _ => none

--- Steps of one peer

variable {params : FusionRendezvousParams} {state next : Negotiation} {event : RendezvousEvent}
variable {sent : Outgoing} {session : String} (hEffect : StepEffect params state event next sent)

/- What is acknowledged is held by then, or is taken. -/
include hEffect in
theorem acknowledges_of_effect {receiver network : String} {tier epoch : Int}
    (hMem : (receiver, .ack session network tier epoch) ∈ sent) :
    taken params state event = some session ∨ current state = some session := by
  cases hEffect with
  | goes hGrown =>
    exfalso
    rcases hGrown.sent with ⟨-, hQuiet⟩ | hStarted
    · exact hQuiet.1 _ _ _ _ _ hMem
    · rw [hStarted.sent_eq] at hMem
      rcases List.mem_map.mp hMem with ⟨other, -, hSame⟩
      cases (Prod.mk.inj hSame).2
  | yields hTaken =>
    left
    cases List.mem_singleton.mp hMem
    exact if_pos hTaken
  | waits hReminds =>
    right
    rcases hReminds with rfl | ⟨held, hHeld, -, rfl⟩
    · cases hMem
    · cases List.mem_singleton.mp hMem
      simp [current, hHeld]
  | accepts hTaken =>
    left
    cases List.mem_singleton.mp hMem
    exact if_pos hTaken
  | drops hDropped => cases hMem
  | pauses => cases hMem
  | rejects hQuiet => exact absurd hMem (hQuiet.1 _ _ _ _ _)
  | enters hStarted => cases hMem
  | leads hStarting => cases hMem
  | begins => cases hMem
  | stays => cases hMem

/- Starts go to the others. -/
include hEffect in
theorem starts_of_effect {receiver : String} {round : RoundProposal}
    (hMem : (receiver, .start round) ∈ sent) : receiver ≠ params.myPubkey := by
  cases hEffect with
  | goes hGrown =>
    rcases hGrown.sent with ⟨-, hQuiet⟩ | hStarted
    · exact absurd hMem (hQuiet.2 _ _)
    · rw [hStarted.sent_eq] at hMem
      rcases List.mem_map.mp hMem with ⟨other, hOther, hSame⟩
      rw [← (Prod.mk.inj hSame).1]
      unfold CoordinatorState.others at hOther
      exact of_decide_eq_true (List.mem_filter.mp hOther).2
  | yields hTaken => cases List.mem_singleton.mp hMem
  | waits hReminds =>
    rcases hReminds with rfl | ⟨held, -, -, rfl⟩
    · cases hMem
    · cases List.mem_singleton.mp hMem
  | accepts hTaken => cases List.mem_singleton.mp hMem
  | drops hDropped => cases hMem
  | pauses => cases hMem
  | rejects hQuiet => exact absurd hMem (hQuiet.2 _ _)
  | enters hStarted => cases hMem
  | leads hStarting => cases hMem
  | begins => cases hMem
  | stays => cases hMem

/- A round that is entered by a start is the one that is held. -/
theorem entered_spec {held : Option HeldProposal} {sender : String} {round : RoundProposal}
    {entered : NegotiatedFusionRound}
    (hEntered : enteredRound params held sender round = some entered) :
    entered.coordinator = sender ∧
    held.map (fun held => held.2.session) = some entered.session := by
  unfold enteredRound at hEntered
  split at hEntered
  · cases hEntered
  · split at hEntered
    · rename_i hTaken
      cases hEntered
      exact ⟨rfl, congrArg some hTaken.2.1.symm⟩
    · cases hEntered

/- An own round leads on from an own round that did, or from the beginning of an attempt. -/
include hEffect in
theorem leading_of_effect (hForeign : ∀ round, event ≠ .message params.myPubkey (.start round))
    (hLeading : Leading params.myPubkey session next) :
    Leading params.myPubkey session state ∨
    taken params state event = some session ∧ session ∈ drawnBy event := by
  cases hEffect with
  | goes hGrown =>
    left
    rcases hLeading with ⟨hSession, hOpen⟩
    refine ⟨hGrown.session.symm.trans hSession, ?_⟩
    rcases hGrown.sent with ⟨hStarting, -⟩ | hStarted
    · rw [← hGrown.yielded, ← hStarting]
      exact hOpen
    · exact Or.inl (hGrown.yielded.symm.trans hStarted.yielded)
  | yields hTaken =>
    left
    rcases hLeading with ⟨hSession, hYielded | hStarting⟩
    · cases hYielded
    · exact ⟨hSession, Or.inr hStarting⟩
  | waits hReminds => exact hLeading.elim
  | accepts hTaken => exact hLeading.elim
  | drops hDropped => exact hLeading.elim
  | pauses => exact hLeading.elim
  | rejects hQuiet => exact hLeading.elim
  | enters hStarted =>
    rename_i sender round entered
    exfalso
    apply hForeign round
    rw [← hLeading.1, (entered_spec hStarted).1]
  | leads hStarting => exact Or.inl ⟨hLeading.2, Or.inr hStarting⟩
  | begins =>
    rename_i attempt candidates drawn expired
    rcases begin_cases params attempt candidates drawn expired with ⟨error, hBegin⟩ |
      ⟨self, hBegin, hElected, hDrawn, -⟩ | ⟨self, hBegin, -⟩
    · rw [hBegin] at hLeading
      exact hLeading.elim
    · rw [hBegin] at hLeading
      right
      rw [← hLeading.1, hDrawn]
      exact ⟨if_pos hElected, List.mem_singleton.mpr rfl⟩
    · rw [hBegin] at hLeading
      exact hLeading.elim
  | stays => exact Or.inl hLeading

/- A peer stays in its session, or takes one, or leads it. -/
include hEffect in
theorem current_of_effect (hCurrent : current next = some session) :
    current state = some session ∨
    taken params state event = some session ∨
    Leading params.myPubkey session state := by
  cases hEffect with
  | goes hGrown =>
    left
    simp only [current] at hCurrent ⊢
    rw [← hGrown.yielded, ← hGrown.session]
    exact hCurrent
  | yields hTaken =>
    right
    left
    cases hCurrent
    exact if_pos hTaken
  | waits hReminds => exact Or.inl hCurrent
  | accepts hTaken =>
    right
    left
    cases hCurrent
    exact if_pos hTaken
  | drops hDropped =>
    simp only [current] at hCurrent
    rw [hDropped] at hCurrent
    cases hCurrent
  | pauses => cases hCurrent
  | rejects hQuiet => cases hCurrent
  | enters hStarted =>
    left
    cases hCurrent
    have hHeld := (entered_spec hStarted).2
    cases state with
    | coordinating attempt self =>
      simp only [Negotiation.held] at hHeld
      simp only [current]
      cases hYielded : self.yielded with
      | none =>
        rw [hYielded] at hHeld
        cases hHeld
      | some held =>
        rw [hYielded] at hHeld
        exact hHeld
    | participating attempt self => exact hHeld
    | pausing attempt candidates => cases hHeld
    | resolved round => cases hHeld
    | rejected error => cases hHeld
  | leads hStarting =>
    cases hCurrent
    exact Or.inr (Or.inr ⟨rfl, Or.inr hStarting⟩)
  | begins =>
    rename_i attempt candidates drawn expired
    rcases begin_cases params attempt candidates drawn expired with ⟨error, hBegin⟩ |
      ⟨self, hBegin, hElected, hDrawn, -, hYielded, -⟩ | ⟨self, hBegin, hAccepted⟩
    · rw [hBegin] at hCurrent
      cases hCurrent
    · rw [hBegin] at hCurrent
      simp only [current] at hCurrent
      rw [hYielded, hDrawn] at hCurrent
      cases hCurrent
      exact Or.inr (Or.inl (if_pos hElected))
    · rw [hBegin] at hCurrent
      simp only [current] at hCurrent
      rw [hAccepted] at hCurrent
      cases hCurrent
  | stays => exact Or.inl hCurrent

/- Who is counted in an own round was counted before, or acknowledges it now, or is the peer itself.
   -/
theorem heard_of_effect {attempt : Nat} {self : CoordinatorState} {other : String}
    (hEffect : StepEffect params state event (.coordinating attempt self) sent)
    (hMem : other ∈ self.acknowledgments) :
    (∃ before,
        state = .coordinating attempt before ∧ before.session = self.session ∧
          other ∈ before.acknowledgments) ∨
    (∃ network tier epoch, event = .message other (.ack self.session network tier epoch)) ∨
    other = params.myPubkey ∧ self.session ∈ drawnBy event := by
  generalize hNext : Negotiation.coordinating attempt self = next at hEffect
  cases hEffect with
  | goes hGrown =>
    cases hNext
    rcases hGrown.acknowledgments other hMem with hOld | hNew
    · exact Or.inl ⟨_, rfl, hGrown.session.symm, hOld⟩
    · right
      left
      rw [hGrown.session]
      exact hNew
  | yields hTaken =>
    cases hNext
    exact Or.inl ⟨_, rfl, rfl, hMem⟩
  | waits hReminds => cases hNext
  | accepts hTaken => cases hNext
  | drops hDropped => cases hNext
  | pauses => cases hNext
  | rejects hQuiet => cases hNext
  | enters hStarted => cases hNext
  | leads hStarting => cases hNext
  | begins =>
    rename_i attempt' candidates drawn expired
    rcases begin_cases params attempt' candidates drawn expired with ⟨error, hBegin⟩ |
      ⟨self', hBegin, -, hDrawn, hAcknowledgments, -⟩ | ⟨self', hBegin, -⟩
    · rw [hBegin] at hNext
      cases hNext
    · rw [hBegin] at hNext
      cases hNext
      rw [hAcknowledgments, List.mem_singleton] at hMem
      rw [hDrawn]
      exact Or.inr (Or.inr ⟨hMem, List.mem_singleton.mpr rfl⟩)
    · rw [hBegin] at hNext
      cases hNext
  | stays =>
    cases hNext
    exact Or.inl ⟨_, rfl, rfl, hMem⟩

/- A peer resolves as a coordinator with the round that all of its players acknowledged. -/
theorem led_of_effect {round : NegotiatedFusionRound}
    (hEffect : StepEffect params state event (.resolved round) sent)
    (hForeign : ∀ round, event ≠ .message params.myPubkey (.start round))
    (hOwn : round.coordinator = params.myPubkey) :
    state = .resolved round ∨
    ∃ attempt self,
      state = .coordinating attempt self ∧ round.session = self.session ∧
        ∀ other ∈ round.participants, other ∈ self.acknowledgments := by
  generalize hNext : Negotiation.resolved round = next at hEffect
  cases hEffect with
  | goes hGrown => cases hNext
  | yields hTaken => cases hNext
  | waits hReminds => cases hNext
  | accepts hTaken => cases hNext
  | drops hDropped => cases hNext
  | pauses => cases hNext
  | rejects hQuiet => cases hNext
  | enters hStarted =>
    cases hNext
    exfalso
    apply hForeign
    rw [← hOwn, (entered_spec hStarted).1]
  | leads hStarting =>
    cases hNext
    right
    refine ⟨_, _, rfl, rfl, ?_⟩
    intro other hMem
    exact (List.mem_insertionSort _).mp hMem
  | begins =>
    rename_i attempt candidates drawn expired
    rcases begin_cases params attempt candidates drawn expired with ⟨error, hBegin⟩ |
      ⟨self, hBegin, -⟩ | ⟨self, hBegin, -⟩
    · rw [hBegin] at hNext
      cases hNext
    · rw [hBegin] at hNext
      cases hNext
    · rw [hBegin] at hNext
      cases hNext
  | stays => exact Or.inl rfl

end OptnWallet.Nostr
