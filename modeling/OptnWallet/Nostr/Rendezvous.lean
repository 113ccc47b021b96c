import OptnWallet.Nostr.ComponentV4
import OptnWallet.Nostr.Election

/-
  The agreement on the players of a round.  An elected peer proposes its candidates as a round and
  starts it once all of them acknowledged; the others acknowledge the proposal that outranks what
  they hold, and wait for the start.  A coordinator that is silent is dropped, and one that hears
  from too few shrinks its round.

  Main declarations:
    * `Nostr.Negotiation`
    * `Nostr.Negotiation.step`
    * `Nostr.Negotiation.start`
-/

--- Messages

namespace OptnWallet.Nostr

/- What a proposal and a start carry. -/
structure RoundProposal where
  session : String
  network : String
  tier : Int
  epoch : Int
  participants : List String
deriving DecidableEq

inductive RendezvousMessage where
  | proposal (round : RoundProposal)
  | ack (session network : String) (tier epoch : Int)
  | start (round : RoundProposal)
  | shrink (session network : String) (tier epoch : Int) (remaining : List String)
  | abort (session reason : String)
deriving DecidableEq

structure FusionRendezvousParams where
  myPubkey : String
  candidates : List String
  network : String
  tier : Int
  epoch : Int
  knobs : FusionKnobs

structure NegotiatedFusionRound where
  session : String
  coordinator : String
  participants : List String
  network : String
  tier : Int
  epoch : Int
deriving DecidableEq

/- Sessions are 32 bytes as text, as keys are. -/
def isSession (text : String) : Bool := isPubkey text

section

variable (params : FusionRendezvousParams)

def sameRoundBinding (network : String) (tier : Int) : Bool :=
  network = params.network ∧ tier = params.tier

def validProposal (sender : String) (round : RoundProposal) : Bool :=
  let participants := canonicalParticipants params.knobs round.participants
  isPubkey sender && isSession round.session &&
    sameRoundBinding params round.network round.tier &&
    params.knobs.minSafePlayers ≤ participants.length &&
    participants = round.participants &&
    participants.contains params.myPubkey &&
    electCoordinator participants = some sender

def FusionRendezvousParams.ackOf (session : String) :
    RendezvousMessage := .ack session params.network params.tier params.epoch

def FusionRendezvousParams.roundOf (session : String)
    (participants : List String) : RoundProposal :=
  { session, network := params.network, tier := params.tier, epoch := params.epoch, participants }

end

def abortError (reason : String) : String :=
  "fusion round aborted: " ++ reason

--- States

/- A proposal and the peer that sent it. -/
abbrev HeldProposal := String × RoundProposal

/- The session of an own round and who acknowledged it.  The proposal that it yielded to comes from
   another peer.  While it is starting the starts are on their way, and while it is shrinking the
   notices are. -/
structure CoordinatorState where
  session : String
  participants : List String
  acknowledgments : List String
  yielded : Option HeldProposal
  settlePassed : Bool
  starting : Bool
  shrinking : Option (List String)
deriving DecidableEq

structure ParticipantState where
  candidates : List String
  coordinator : String
  accepted : Option HeldProposal
  shrinkRemaining : Option (List String)
  expectedCoordinator : String
deriving DecidableEq

/- The pause before the next attempt hears nothing. -/
inductive Negotiation where
  | coordinating (attempt : Nat) (self : CoordinatorState)
  | participating (attempt : Nat) (self : ParticipantState)
  | pausing (attempt : Nat) (candidates : List String)
  | resolved (round : NegotiatedFusionRound)
  | rejected (error : String)
deriving DecidableEq

/- Besides messages there are timers, what was sent, what failed to be sent, and the user.  The next
   attempt draws a session and looks at the clock. -/
inductive RendezvousEvent where
  | message (sender : String) (message : RendezvousMessage)
  | repropose
  | settle
  | ackTimeout
  | startsSent
  | startsFailed (error : String)
  | shrinkSent
  | ackFailed (error : String)
  | resendAck
  | proposalTimeout
  | startTimeout
  | cancel
  | resume (session : String) (expired : Bool)
deriving DecidableEq

abbrev Outgoing := List (String × RendezvousMessage)

--- Attempts

def maxCoordinatorFailovers : Nat := 8

def rendezvousLateJoinerHint : String :=
  "Other wallets may have already formed a round without you " ++
    "(you were late or Tor was slow). Auto will retry " ++ "shortly; " ++
    "Manual Start can try again when peers are online."

def mentions (text part : String) : Bool := part.toList <:+: text.toList

/- Bare texts of timeouts are given a hint. -/
def withHint (error : String) : String :=
  let lower := toLowerCase error
  if (mentions lower "round start timed out" ||
      mentions lower "round acknowledgments timed out") &&
      !mentions error "smaller round" then
    error ++ ". " ++ rendezvousLateJoinerHint
  else error

def silentText : String := "round start timed out"

variable (params : FusionRendezvousParams)

namespace Negotiation

/- The beginning of an attempt. -/
def begin (attempt : Nat) (candidates : List String) (session : String) (expired : Bool) :
    Negotiation :=
  if candidates.length < params.knobs.minSafePlayers then .rejected
      ("P2P Fusion needs at least " ++ toString params.knobs.minSafePlayers ++
        " fresh peers (CashFusion-style anonymity floor).")
  else
    match electCoordinator candidates with
    | none => .rejected "P2P Fusion coordinator election failed."
    | some coordinator =>
      if expired then .rejected
          ("Round agreement timed out with " ++ toString candidates.length ++ " candidate(s). " ++
            rendezvousLateJoinerHint)
      else if coordinator = params.myPubkey then
        if isSession session then .coordinating attempt
            { session
              participants := candidates
              acknowledgments := [params.myPubkey]
              yielded := none
              settlePassed := false
              starting := false
              shrinking := none }
        else .rejected "invalid Fusion session id"
      else .participating attempt
          { candidates
            coordinator
            accepted := none
            shrinkRemaining := none
            expectedCoordinator := coordinator }

def start (session : String) (expired : Bool) : Negotiation :=
  if isPubkey params.myPubkey then
    begin params 0 (canonicalParticipants params.knobs (params.myPubkey :: params.candidates))
      session expired
  else .rejected "invalid local Fusion round pubkey"

/- A silent coordinator is dropped for as long as there are attempts left. -/
def failed (attempt : Nat) (self : ParticipantState) (error : String) : Negotiation :=
  if mentions error silentText ∧ attempt < maxCoordinatorFailovers then
    .pausing (attempt + 1) (self.candidates.filter (fun pubkey => pubkey ≠ self.coordinator))
  else .rejected (withHint error)

def shrunk (attempt : Nat) (remaining : List String) : Negotiation :=
  .pausing (attempt + 1) remaining

end Negotiation

/- The round that a start from the held coordinator enters. -/
def enteredRound (held : Option HeldProposal) (sender : String) (round : RoundProposal) :
    Option NegotiatedFusionRound :=
  match held with
  | none => none
  | some (coordinator, proposal) =>
    if coordinator = sender ∧ round.session = proposal.session ∧
        sameRoundBinding params round.network round.tier ∧
        round.participants.contains params.myPubkey then
      some
        { session := round.session
          coordinator := sender
          participants := round.participants
          network := params.network
          tier := params.tier
          epoch := params.epoch }
    else none

--- Coordinators

namespace CoordinatorState

section

variable (self : CoordinatorState)

def others : List String :=
  self.participants.filter (fun pubkey => pubkey ≠ params.myPubkey)

def publishProposal : Outgoing :=
  (self.others params).map
    (fun peer => (peer, .proposal (params.roundOf self.session self.participants)))

/- All of the proposed set, in its order. -/
def startOwnRound : CoordinatorState × Outgoing :=
  let finalParticipants := self.acknowledgments.insertionSort (· ≤ ·)
  if self.yielded.isSome ∨ self.starting ∨ finalParticipants.length < self.participants.length ∨
      finalParticipants ≠ self.participants then (self, [])
  else ({ self with starting := true },
      (finalParticipants.filter (fun peer => peer ≠ params.myPubkey)).map
        (fun peer => (peer, .start (params.roundOf self.session finalParticipants))))

def ownRound : NegotiatedFusionRound :=
  { session := self.session
    coordinator := params.myPubkey
    participants := self.acknowledgments.insertionSort (· ≤ ·)
    network := params.network
    tier := params.tier
    epoch := params.epoch }

/- The abort goes to the coordinator that it yielded to, or to the others of the own round. -/
def abortNotice (error : String) : Outgoing :=
  let reason := String.ofList (error.toList.take 240)
  match self.yielded with
  | some (coordinator, proposal) => [(coordinator, .abort proposal.session reason)]
  | none => (self.others params).map (fun peer => (peer, .abort self.session reason))

/- A proposal is taken if it beats the own round and whatever was yielded to. -/
def yieldsTo (sender : String) (round : RoundProposal) : Bool :=
  validProposal params sender round && self.yielded.map Prod.fst ≠ some sender &&
    outranks params.knobs sender round.participants self.participants &&
    (match self.yielded with
      | none => true
      | some held => outranks params.knobs sender round.participants held.2.participants)

def acknowledge (sender : String) : CoordinatorState × Outgoing :=
  let noted :=
    { self with
      acknowledgments :=
        if sender ∈ self.acknowledgments then self.acknowledgments
        else self.acknowledgments ++ [sender] }
  if noted.settlePassed then noted.startOwnRound params
  else (noted, [])

def shrinkNotices (remaining : List String) : Outgoing :=
  (remaining.filter (fun peer => peer ≠ params.myPubkey)).map
      (fun peer => (peer, .shrink self.session params.network params.tier params.epoch remaining))
      ++
    (self.participants.filter (fun peer => !self.acknowledgments.contains peer)).map
      (fun peer => (peer,
          .abort self.session
            ("Not in the ACKed set (" ++ toString remaining.length ++ "/" ++
              toString self.participants.length ++ ") — Auto will retry.")))

end

section

variable (attempt : Nat) (self : CoordinatorState)

/- The one shrink of the attempt is to whoever acknowledged. -/
def ackTimeout : Negotiation × Outgoing :=
  let remaining := self.acknowledgments.insertionSort (· ≤ ·)
  if self.starting ∨ self.yielded.isSome ∨ self.shrinking.isSome ∨
      self.acknowledgments.length = self.participants.length then
    (.coordinating attempt self, [])
  else if params.knobs.minSafePlayers ≤ remaining.length ∧
        remaining.length < self.participants.length ∧
        remaining.contains params.myPubkey then
    (.coordinating attempt { self with shrinking := some remaining },
      self.shrinkNotices params remaining)
  else
    let error :=
      "round acknowledgments timed out (only " ++ toString self.acknowledgments.length ++ "/" ++
        toString self.participants.length ++ " answered). " ++ "Need ≥" ++
        toString params.knobs.minSafePlayers ++ " to shrink; Auto will retry."
    (.rejected (withHint error), self.abortNotice params error)

def onMessage (sender : String) : RendezvousMessage → Negotiation × Outgoing
  | .proposal round =>
    if self.yieldsTo params sender round then
      (.coordinating attempt { self with yielded := some (sender, round) },
        [(sender, params.ackOf round.session)])
    else (.coordinating attempt self, [])
  | .abort session reason =>
    if self.yielded.map
        (fun held => (held.1, held.2.session)) =
        some (sender, session) then
      (.rejected (withHint (abortError reason)), [])
    else (.coordinating attempt self, [])
  | .start round =>
    match enteredRound params self.yielded sender round with
    | some entered => (.resolved entered, [])
    | none => (.coordinating attempt self, [])
  | .ack session network tier _ =>
    if self.yielded.isSome ∨ session ≠ self.session ∨ ¬ sameRoundBinding params network tier ∨
        sender ∉ self.others params then
      (.coordinating attempt self, [])
    else
      let next := self.acknowledge params sender
      (.coordinating attempt next.1, next.2)
  | .shrink _ _ _ _ _ => (.coordinating attempt self, [])

def step : RendezvousEvent → Negotiation × Outgoing
  | .message sender message => self.onMessage params attempt sender message
  | .repropose =>
    if self.starting ∨ self.yielded.isSome then (.coordinating attempt self, [])
    else (.coordinating attempt self, self.publishProposal params)
  | .settle =>
    let next := CoordinatorState.startOwnRound params { self with settlePassed := true }
    (.coordinating attempt next.1, next.2)
  | .ackTimeout => self.ackTimeout params attempt
  | .startsSent =>
    if self.starting then (.resolved (self.ownRound params), [])
    else (.coordinating attempt self, [])
  | .startsFailed error =>
    if self.starting then (.rejected (withHint error), self.abortNotice params error)
    else (.coordinating attempt self, [])
  | .shrinkSent =>
    match self.shrinking with
    | some remaining => (Negotiation.shrunk attempt remaining, [])
    | none => (.coordinating attempt self, [])
  | .ackFailed error =>
    if self.yielded.isSome then (.rejected (withHint error), [])
    else (.coordinating attempt self, [])
  | .cancel => (.rejected (withHint (abortError "cancelled")),
      self.abortNotice params (abortError "cancelled"))
  | .resendAck => (.coordinating attempt self, [])
  | .proposalTimeout => (.coordinating attempt self, [])
  | .startTimeout => (.coordinating attempt self, [])
  | .resume _ _ => (.coordinating attempt self, [])

end

end CoordinatorState

--- Participants

namespace ParticipantState

section

variable (self : ParticipantState)

/- The peer that is listened to. -/
def listensTo : String :=
  match self.accepted with
  | some held => held.1
  | none => self.expectedCoordinator

/- Who was in the round that a shrink takes peers out of. -/
def previous : List String :=
  match self.accepted with
  | some held => held.2.participants
  | none => self.candidates

/- A proposal is taken if it beats what is waited for, and names the peers that are left of a
   shrink. -/
def accepts (sender : String) (round : RoundProposal) : Bool :=
  validProposal params sender round && self.accepted.map Prod.fst ≠ some sender &&
    (match self.shrinkRemaining with
      | some remaining => round.participants = remaining
      | none => true) &&
    (match self.accepted with
      | some held => outranks params.knobs sender round.participants held.2.participants
      | none => sender = self.expectedCoordinator ||
          outranks params.knobs sender round.participants self.candidates)

/- Only a part of the round that has this peer is gone on with. -/
def admitsShrink (remaining : List String) : Bool :=
  params.knobs.minSafePlayers ≤ remaining.length && remaining.length < self.previous.length &&
    remaining.contains params.myPubkey &&
    remaining.all (fun peer => self.previous.contains peer)

end

section

variable (attempt : Nat) (self : ParticipantState)

def onShrink (remaining : List String) : Negotiation :=
  if self.admitsShrink params remaining then
    let next := electCoordinator remaining
    if next = some params.myPubkey then Negotiation.shrunk attempt remaining
    else .participating attempt
        { self with
          accepted := none
          shrinkRemaining := some remaining
          expectedCoordinator := next.getD self.expectedCoordinator }
  else .participating attempt self

def onMessage (sender : String) : RendezvousMessage → Negotiation × Outgoing
  | .abort session reason =>
    if sender = self.listensTo ∧ (∀ held ∈ self.accepted, session = held.2.session) then
      (Negotiation.failed attempt self (abortError reason), [])
    else (.participating attempt self, [])
  | .shrink _ network tier _ remaining =>
    if sender = self.listensTo ∧ sameRoundBinding params network tier then
      (self.onShrink params attempt (canonicalParticipants params.knobs remaining), [])
    else (.participating attempt self, [])
  | .proposal round =>
    if self.accepts params sender round then
      (.participating attempt { self with accepted := some (sender, round) },
        [(sender, params.ackOf round.session)])
    else (.participating attempt self, [])
  | .start round =>
    match enteredRound params self.accepted sender round with
    | some entered => (.resolved entered, [])
    | none => (.participating attempt self, [])
  | .ack _ _ _ _ => (.participating attempt self, [])

def step : RendezvousEvent → Negotiation × Outgoing
  | .message sender message => self.onMessage params attempt sender message
  | .resendAck =>
    match self.accepted with
    | some (coordinator, round) =>
      (.participating attempt self, [(coordinator, params.ackOf round.session)])
    | none => (.participating attempt self, [])
  | .proposalTimeout =>
    if self.accepted.isNone ∧ self.shrinkRemaining.isNone then
      (Negotiation.failed attempt self silentText, [])
    else (.participating attempt self, [])
  | .startTimeout => (Negotiation.failed attempt self silentText, [])
  | .cancel => (Negotiation.failed attempt self (abortError "cancelled"), [])
  | .repropose => (.participating attempt self, [])
  | .settle => (.participating attempt self, [])
  | .ackTimeout => (.participating attempt self, [])
  | .startsSent => (.participating attempt self, [])
  | .startsFailed _ => (.participating attempt self, [])
  | .shrinkSent => (.participating attempt self, [])
  | .ackFailed _ => (.participating attempt self, [])
  | .resume _ _ => (.participating attempt self, [])

end

end ParticipantState

--- Negotiations

namespace Negotiation

def step (self : Negotiation) (event : RendezvousEvent) : Negotiation × Outgoing :=
  match self with
  | .coordinating attempt state => state.step params attempt event
  | .participating attempt state => state.step params attempt event
  | .pausing attempt candidates =>
    match event with
    | .resume session expired => (begin params attempt candidates session expired, [])
    | _ => (.pausing attempt candidates, [])
  | .resolved round => (.resolved round, [])
  | .rejected error => (.rejected error, [])

/- The proposal that is held: the one that was accepted, or the one that was yielded to. -/
def held : Negotiation → Option HeldProposal
  | .coordinating _ state => state.yielded
  | .participating _ state => state.accepted
  | .pausing _ _ => none
  | .resolved _ => none
  | .rejected _ => none

end Negotiation

end OptnWallet.Nostr
