import OptnWallet.Nostr.Rendezvous.Effects

/-
  The round that a peer enters.  A start is compared with the proposal that is held by its sender
  and its session only, so that whoever starts the round may name other players than it proposed.

  Main declarations:
    * `Nostr.Run`
    * `Nostr.Enters`
    * `Nostr.enters_acknowledged`
-/

--- Runs

namespace OptnWallet.Nostr

variable (params : FusionRendezvousParams)

/- The proposal that is acknowledged by what is sent. -/
def acknowledgedBy (event : RendezvousEvent) (sent : Outgoing) : Option HeldProposal :=
  match event with
  | .message sender (.proposal round) =>
    if (sender, params.ackOf round.session) ∈ sent then some (sender, round)
    else none
  | _ => none

/- Events one after the other from the start, with the proposals that were acknowledged, the last
   one at the end. Each event is one that is admitted in its state. -/
inductive Run (Admits : Negotiation → RendezvousEvent → Prop) :
    List RendezvousEvent → List HeldProposal → Negotiation → Prop where
  | start (session : String) (expired : Bool) :
      Run Admits [] [] (Negotiation.start params session expired)
  | step {events : List RendezvousEvent} {history : List HeldProposal} {state : Negotiation}
      (run : Run Admits events history state)
      (event : RendezvousEvent)
      (admitted : Admits state event) :
      Run Admits (events ++ [event])
        (history ++ (acknowledgedBy params event (state.step params event).2).toList)
        (state.step params event).1

/- The latest proposal of a session that was acknowledged. -/
def lastAcknowledged (history : List HeldProposal) (session : String) : Option HeldProposal :=
  history.reverse.find? (fun held => held.2.session = session)

/- A round that another peer coordinates. -/
structure Follows (history : List HeldProposal) (round : NegotiatedFusionRound) : Prop where
  elected : electCoordinator round.participants = some round.coordinator
  canonical : Canonical params.knobs round.participants
  safe : params.knobs.minSafePlayers ≤ round.participants.length
  member : params.myPubkey ∈ round.participants
  acknowledged :
    ∃ proposal,
    lastAcknowledged history round.session = some (round.coordinator, proposal) ∧
      proposal.participants = round.participants

/- The session is acknowledged by a peer, this one apart. -/
def Heard (events : List RendezvousEvent) (session peer : String) : Prop :=
  peer ≠ params.myPubkey →
    ∃ network tier epoch, RendezvousEvent.message peer (.ack session network tier epoch) ∈ events

/- A round of this peer, that all of its players acknowledged. -/
structure Leads (events : List RendezvousEvent) (round : NegotiatedFusionRound) : Prop where
  own : round.coordinator = params.myPubkey
  heard : ∀ peer ∈ round.participants, Heard params events round.session peer

/- A round that is entered at an event.  Own rounds are entered when their starts are sent. -/
structure Enters (events : List RendezvousEvent) (history : List HeldProposal)
    (event : RendezvousEvent) (round : NegotiatedFusionRound) : Prop where
  follows : event ≠ .startsSent → Follows params history round
  leads : event = .startsSent → Leads params events round

/- A start that would be entered names the players of the proposal that is held. -/
def StartsAsProposed (state : Negotiation) (event : RendezvousEvent) : Prop :=
  ∀ sender round proposal,
    event = .message sender (.start round) →
      state.held = some (sender, proposal) →
      round.session = proposal.session →
      sameRoundBinding params round.network round.tier = true →
      params.myPubkey ∈ round.participants →
      round.participants = proposal.participants

--- Steps

variable {params} {sender : String} {round : RoundProposal}

/- What a valid proposal says. -/
theorem of_validProposal (hValid : validProposal params sender round = true) :
    electCoordinator round.participants = some sender ∧
    Canonical params.knobs round.participants ∧
    params.knobs.minSafePlayers ≤ round.participants.length ∧
    params.myPubkey ∈ round.participants := by
  unfold validProposal at hValid
  simp only [Bool.and_eq_true, decide_eq_true_eq, List.contains_iff_mem] at hValid
  rcases hValid with ⟨⟨⟨⟨-, hSafe⟩, hSame⟩, hMember⟩, hElected⟩
  have hCanonical := canonical_canonicalParticipants params.knobs round.participants
  rw [hSame] at hSafe hMember hElected hCanonical
  exact ⟨hElected, hCanonical, hSafe, hMember⟩

theorem acknowledgedBy_eq_none {event : RendezvousEvent} {sent : Outgoing}
    (hQuiet : ∀ peer session network tier epoch,
        (peer, RendezvousMessage.ack session network tier epoch) ∉ sent) :
    acknowledgedBy params event sent = none := by
  unfold acknowledgedBy
  split
  · split
    · rename_i hMem
      exact absurd hMem (hQuiet _ _ _ _ _)
    · rfl
  · rfl

theorem acknowledgedBy_nil (event : RendezvousEvent) : acknowledgedBy params event [] = none :=
  acknowledgedBy_eq_none (fun _ _ _ _ _ hMem => List.not_mem_nil hMem)

theorem acknowledgedBy_proposal (sender : String) (round : RoundProposal) :
    acknowledgedBy params (.message sender (.proposal round)) [(sender, params.ackOf round.session)]
        = some (sender, round) := by
  unfold acknowledgedBy
  exact if_pos (List.mem_singleton.mpr rfl)

theorem lastAcknowledged_append (history : List HeldProposal) (held : HeldProposal) :
    lastAcknowledged (history ++ [held]) held.2.session = some held := by
  unfold lastAcknowledged
  rw [List.reverse_append]
  exact List.find?_cons_of_pos (by simp)

variable {events : List RendezvousEvent}

theorem heard_append {session peer : String} (event : RendezvousEvent)
    (hHeard : Heard params events session peer) :
    Heard params (events ++ [event]) session peer := by
  intro hOther
  rcases hHeard hOther with ⟨network, tier, epoch, hMem⟩
  exact ⟨network, tier, epoch, List.mem_append_left _ hMem⟩

--- Runs of negotiations

/- What is held was acknowledged last, and who is counted in the own round acknowledged it. -/
structure Kept (params : FusionRendezvousParams) (events : List RendezvousEvent)
    (history : List HeldProposal) (state : Negotiation) : Prop where
  held :
    ∀ sender proposal,
    state.held = some (sender, proposal) →
      validProposal params sender proposal = true ∧
        lastAcknowledged history proposal.session = some (sender, proposal)
  heard :
    ∀ attempt self,
    state = .coordinating attempt self →
      ∀ peer ∈ self.acknowledgments, Heard params events self.session peer

variable {history : List HeldProposal} {state : Negotiation}

/- A state with nothing held and no own round. -/
theorem kept_of_idle (hHeld : state.held = none)
    (hOwn : ∀ attempt self, state ≠ .coordinating attempt self) :
    Kept params events history state := by
  constructor
  · intro sender proposal hSome
    rw [hHeld] at hSome
    cases hSome
  · intro attempt self hSame
    exact absurd hSame (hOwn attempt self)

theorem kept_begin (events : List RendezvousEvent) (history : List HeldProposal) (attempt : Nat)
    (candidates : List String) (session : String) (expired : Bool) :
    Kept params events history (Negotiation.begin params attempt candidates session expired) := by
  rcases begin_cases params attempt candidates session expired with ⟨error, hBegin⟩ |
    ⟨self, hBegin, -, -, hAcknowledgments, hYielded, -⟩ | ⟨self, hBegin, hAccepted⟩
  · rw [hBegin]
    apply kept_of_idle
    · rfl
    · intro attempt self hSame
      cases hSame
  · rw [hBegin]
    constructor
    · intro sender proposal hSome
      have hSome : self.yielded = some (sender, proposal) := hSome
      rw [hYielded] at hSome
      cases hSome
    · intro attempt' self' hSame peer hMem hOther
      cases hSame
      rw [hAcknowledgments, List.mem_singleton] at hMem
      exact absurd hMem hOther
  · rw [hBegin]
    apply kept_of_idle
    · exact hAccepted
    · intro attempt self hSame
      cases hSame

/- Holding a proposal at the time it is acknowledged. -/
theorem held_append {sender' : String} {round' : RoundProposal}
    (hValid : validProposal params sender round = true)
    (hSame : some (sender, round) = some (sender', round')) :
    validProposal params sender' round' = true ∧
    lastAcknowledged (history ++ [(sender, round)]) round'.session = some (sender', round') := by
  cases hSame
  exact ⟨hValid, lastAcknowledged_append _ _⟩

theorem kept_effect {next : Negotiation} {event : RendezvousEvent} {sent : Outgoing}
    (hKept : Kept params events history state) (hEffect : StepEffect params state event next sent) :
    Kept params (events ++ [event]) (history ++ (acknowledgedBy params event sent).toList)
      next := by
  cases hEffect with
  | goes hGrown =>
    have hQuiet : acknowledgedBy params event sent = none := by
      apply acknowledgedBy_eq_none
      rcases hGrown.sent with ⟨-, hQuiet⟩ | hStarted
      · exact hQuiet.1
      · intro peer session network tier epoch hMem
        rw [hStarted.sent_eq] at hMem
        rcases List.mem_map.mp hMem with ⟨other, -, hSame⟩
        cases (Prod.mk.inj hSame).2
    rw [hQuiet, Option.toList_none, List.append_nil]
    constructor
    · intro sender proposal hHeld
      apply hKept.held
      exact hGrown.yielded.symm.trans hHeld
    · intro attempt self hSame peer hMem
      cases hSame
      rw [hGrown.session]
      rcases hGrown.acknowledgments peer hMem with hOld | hNew
      · exact heard_append event (hKept.heard _ _ rfl peer hOld)
      · intro _
        rcases hNew with ⟨network, tier, epoch, hEvent⟩
        refine ⟨network, tier, epoch, ?_⟩
        rw [hEvent]
        exact List.mem_append_right _ (List.mem_singleton.mpr rfl)
  | yields hTaken =>
    unfold CoordinatorState.yieldsTo at hTaken
    simp only [Bool.and_eq_true] at hTaken
    rw [acknowledgedBy_proposal]
    constructor
    · intro sender proposal hHeld
      exact held_append hTaken.1.1.1 hHeld
    · intro attempt self hSame peer hMem
      cases hSame
      exact heard_append _ (hKept.heard _ _ rfl peer hMem)
  | waits hReminds =>
    have hQuiet : acknowledgedBy params event sent = none := by
      rcases hReminds with rfl | ⟨held, -, rfl, -⟩
      · exact acknowledgedBy_nil event
      · rfl
    rw [hQuiet, Option.toList_none, List.append_nil]
    constructor
    · exact hKept.held
    · intro attempt self hSame
      cases hSame
  | accepts hTaken =>
    unfold ParticipantState.accepts at hTaken
    simp only [Bool.and_eq_true] at hTaken
    rw [acknowledgedBy_proposal]
    constructor
    · intro sender proposal hHeld
      exact held_append hTaken.1.1.1 hHeld
    · intro attempt self hSame
      cases hSame
  | drops hDropped =>
    apply kept_of_idle
    · exact hDropped
    · intro attempt self hSame
      cases hSame
  | pauses =>
    apply kept_of_idle
    · rfl
    · intro attempt self hSame
      cases hSame
  | rejects hQuiet =>
    apply kept_of_idle
    · rfl
    · intro attempt self hSame
      cases hSame
  | enters hStarted =>
    apply kept_of_idle
    · rfl
    · intro attempt self hSame
      cases hSame
  | leads hStarting =>
    apply kept_of_idle
    · rfl
    · intro attempt self hSame
      cases hSame
  | begins => exact kept_begin _ _ _ _ _ _
  | stays =>
    rw [acknowledgedBy_nil, Option.toList_none, List.append_nil]
    constructor
    · exact hKept.held
    · intro attempt self hSame peer hMem
      exact heard_append event (hKept.heard attempt self hSame peer hMem)

theorem kept_of_run {Admits : Negotiation → RendezvousEvent → Prop}
    (hRun : Run params Admits events history state) : Kept params events history state := by
  induction hRun with
  | start session expired =>
    unfold Negotiation.start
    split
    · exact kept_begin _ _ _ _ _ _
    · apply kept_of_idle
      · rfl
      · intro attempt self hSame
        cases hSame
  | step run event admitted ih => exact kept_effect ih (step_effect _ _ event)

--- Rounds that are entered

/- A start of the proposal that is held, as it was proposed. -/
theorem follows_of_start {entered : NegotiatedFusionRound}
    (hKept : Kept params events history state)
    (hStart : StartsAsProposed params state (.message sender (.start round)))
    (hEntered : enteredRound params state.held sender round = some entered) :
    Follows params history entered := by
  unfold enteredRound at hEntered
  split at hEntered
  · cases hEntered
  · rename_i coordinator proposal hHeld
    split at hEntered
    · rename_i hTaken
      rcases hTaken with ⟨rfl, hSession, hBinding, hMember⟩
      cases hEntered
      have hSame :=
        hStart coordinator round proposal rfl hHeld hSession hBinding
          (List.contains_iff_mem.mp hMember)
      rcases hKept.held coordinator proposal hHeld with ⟨hValid, hLast⟩
      have hProposal := of_validProposal hValid
      rw [← hSame] at hProposal
      rcases hProposal with ⟨hElected, hCanonical, hSafe, hMe⟩
      exact
        { elected := hElected
          canonical := hCanonical
          safe := hSafe
          member := hMe
          acknowledged := by
            refine ⟨proposal, ?_, hSame.symm⟩
            dsimp only
            rw [hSession]
            exact hLast }
    · cases hEntered

theorem enters_acknowledged {events : List RendezvousEvent} {history : List HeldProposal}
    {state : Negotiation} {event : RendezvousEvent} {round : NegotiatedFusionRound}
    (hRun : Run params (StartsAsProposed params) events history state)
    (hAdmitted : StartsAsProposed params state event)
    (hBefore : ∀ earlier, state ≠ .resolved earlier)
    (hResolves : (state.step params event).1 = .resolved round) :
    Enters params events history event round := by
  have hKept := kept_of_run hRun
  have hEffect := step_effect params state event
  generalize (state.step params event).2 = sent at hEffect
  generalize (state.step params event).1 = next at hResolves hEffect
  cases hEffect with
  | goes hGrown => cases hResolves
  | yields hTaken => cases hResolves
  | waits hReminds => cases hResolves
  | accepts hTaken => cases hResolves
  | drops hDropped => cases hResolves
  | pauses => cases hResolves
  | rejects hQuiet => cases hResolves
  | enters hStarted =>
    cases hResolves
    constructor
    · intro _
      exact follows_of_start hKept hAdmitted hStarted
    · intro hSame
      cases hSame
  | leads hStarting =>
    cases hResolves
    constructor
    · intro hOther
      exact absurd rfl hOther
    · intro _
      constructor
      · rfl
      · intro peer hMem
        exact hKept.heard _ _ rfl peer ((List.mem_insertionSort _).mp hMem)
  | begins =>
    rename_i attempt candidates session expired
    rcases begin_cases params attempt candidates session expired with ⟨error, hBegin⟩ |
      ⟨self, hBegin, -⟩ | ⟨self, hBegin, -⟩
    · rw [hBegin] at hResolves
      cases hResolves
    · rw [hBegin] at hResolves
      cases hResolves
    · rw [hBegin] at hResolves
      cases hResolves
  | stays => exact absurd hResolves (hBefore round)

def sampleParams : FusionRendezvousParams :=
  { myPubkey := sampleKey 'a'
    candidates := [sampleKey 'b', sampleKey 'c', sampleKey 'd']
    network := "mainnet"
    tier := 100000
    epoch := 7
    knobs :=
      { minSafePlayers := 4
        maxPlayers := 10
        three_le := by decide
        min_le_max := by decide
        max_le := by decide } }

def sampleProposal : RoundProposal :=
  sampleParams.roundOf (sampleKey '0') [sampleKey 'a', sampleKey 'b', sampleKey 'c', sampleKey 'd']

/- The other peers propose and start. -/
theorem enters_acknowledged_sample :
    Enters sampleParams [.message (sampleKey 'c') (.proposal sampleProposal)]
      [(sampleKey 'c', sampleProposal)]
      (.message (sampleKey 'c') (.start sampleProposal))
      { session := sampleProposal.session
        coordinator := sampleKey 'c'
        participants := sampleProposal.participants
        network := "mainnet"
        tier := 100000
        epoch := 7 } := by
  let begun := Negotiation.start sampleParams (sampleKey '1') false
  let offer : RendezvousEvent := .message (sampleKey 'c') (.proposal sampleProposal)
  have hOffer : StartsAsProposed sampleParams begun offer := by
    intro sender round proposal hEvent
    simp [offer] at hEvent
  have hHistory :
      acknowledgedBy sampleParams offer (begun.step sampleParams offer).2 =
        some (sampleKey 'c', sampleProposal) := by
    decide +kernel
  have hRun :
      Run sampleParams (StartsAsProposed sampleParams) [offer] [(sampleKey 'c', sampleProposal)]
        (begun.step sampleParams offer).1 := by
    have hStep := Run.step (Run.start (sampleKey '1') false) offer hOffer
    rw [hHistory] at hStep
    exact hStep
  have hHeld : (begun.step sampleParams offer).1.held = some (sampleKey 'c', sampleProposal) := by
    decide +kernel
  have hStart :
      StartsAsProposed sampleParams (begun.step sampleParams offer).1
        (.message (sampleKey 'c') (.start sampleProposal)) := by
    intro sender round proposal hEvent hSome
    rw [hHeld] at hSome
    cases hEvent
    cases hSome
    intro _ _ _
    rfl
  have hBefore : ∀ earlier, (begun.step sampleParams offer).1 ≠ .resolved earlier := by
    intro earlier hSame
    rw [hSame] at hHeld
    cases hHeld
  exact enters_acknowledged hRun hStart hBefore (by decide +kernel)

/- The coordinator of four starts with this peer alone. -/
theorem start_names_others :
    ¬ ∀ (params : FusionRendezvousParams) (events : List RendezvousEvent)
      (history : List HeldProposal) (state : Negotiation) (event : RendezvousEvent)
      (round : NegotiatedFusionRound), Run params (fun _ _ => True) events history state →
      (∀ earlier, state ≠ .resolved earlier) → (state.step params event).1 = .resolved round →
      Enters params events history event round := by
  intro hAll
  let begun := Negotiation.start sampleParams (sampleKey '1') false
  let offer : RendezvousEvent := .message (sampleKey 'c') (.proposal sampleProposal)
  let other : RendezvousEvent :=
    .message (sampleKey 'c')
      (.start { sampleProposal with participants := [sampleKey 'a', sampleKey 'c'] })
  let round : NegotiatedFusionRound :=
    { session := sampleProposal.session
      coordinator := sampleKey 'c'
      participants := [sampleKey 'a', sampleKey 'c']
      network := "mainnet"
      tier := 100000
      epoch := 7 }
  have hResolves :
      ((begun.step sampleParams offer).1.step sampleParams other).1 = .resolved round := by
    decide +kernel
  have hBefore : ∀ earlier, (begun.step sampleParams offer).1 ≠ .resolved earlier := by
    have hHeld : (begun.step sampleParams offer).1.held ≠ none := by decide +kernel
    intro earlier hSame
    rw [hSame] at hHeld
    exact hHeld rfl
  have hEnters :=
    hAll sampleParams _ _ _ other round (Run.step (Run.start (sampleKey '1') false) offer trivial)
      hBefore hResolves
  have hSafe : 4 ≤ 2 := (hEnters.follows (by simp [other])).safe
  exact absurd hSafe (by decide)

end OptnWallet.Nostr
