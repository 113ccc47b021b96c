import OptnWallet.Nostr.Rendezvous.Soundness

/-
  The rounds of a pool.  Acknowledgments are not taken back: a peer that goes over to another
  round is still counted in the first one, and is in both if both start.  As long as peers only go
  over from rounds that are given up, the rounds are apart.

  Main declarations:
    * `Nostr.GoesOver`
    * `Nostr.Agreed`
    * `Nostr.rounds_apart`
-/

--- Going over

namespace OptnWallet.Nostr

def Negotiation.isStarting : Negotiation → Bool
  | .coordinating _ self => self.starting
  | _ => false

/- A peer takes a session only if its own round is not being started, and nobody leads another that
   it acknowledged. -/
def GoesOver (views : PoolViews) (pool : Pool) (peer : String) (event : RendezvousEvent) : Prop :=
  ∀ session,
    taken (views.paramsOf peer) (pool.nodes peer) event = some session →
      (pool.nodes peer).isStarting = false ∧
        ∀ other, other ≠ session → pool.Acknowledged peer other → ¬ pool.Live other

/- The peer resolved as the coordinator of the round. -/
def Pool.Led (pool : Pool) (peer : String) (round : NegotiatedFusionRound) : Prop :=
  pool.nodes peer = .resolved round ∧ round.coordinator = peer

/- The rounds of two coordinators have no player in common, and who resolves in a round that was led
   is in its session. -/
structure RoundsApart (pool : Pool) : Prop where
  disjoint :
    ∀ first second own other,
    first ≠ second → pool.Led first own →
      pool.Led second other →
      own.participants.Disjoint other.participants
  joined :
    ∀ leader member round entered,
    pool.Led leader round → member ∈ round.participants →
      pool.nodes member = .resolved entered →
      entered.session = round.session

--- Steps

variable {views : PoolViews} {pool : Pool} {peer : String} {event : RendezvousEvent}

section Taken

variable {params : FusionRendezvousParams} {state : Negotiation}

/- The peer is in the session that it takes, unless the attempt fails at once. -/
theorem current_of_taken {session other : String} (hTaken : taken params state event = some session)
    (hCurrent : current (state.step params event).1 = some other) : other = session := by
  unfold taken at hTaken
  split at hTaken
  · split at hTaken
    · rename_i hYields
      cases hTaken
      simp only [Negotiation.step, CoordinatorState.step, CoordinatorState.onMessage, hYields,
        if_true, current] at hCurrent
      exact (Option.some.inj hCurrent).symm
    · cases hTaken
  · split at hTaken
    · rename_i hAccepts
      cases hTaken
      simp only [Negotiation.step, ParticipantState.step, ParticipantState.onMessage, hAccepts,
        if_true, current] at hCurrent
      exact (Option.some.inj hCurrent).symm
    · cases hTaken
  · rename_i attempt candidates drawn expired
    split at hTaken
    · cases hTaken
      simp only [Negotiation.step] at hCurrent
      rcases begin_cases params attempt candidates session expired with ⟨error, hBegin⟩ |
        ⟨self, hBegin, -, hDrawn, -, hYielded, -⟩ | ⟨self, hBegin, hAccepted⟩
      · rw [hBegin] at hCurrent
        cases hCurrent
      · rw [hBegin] at hCurrent
        simp only [current, hYielded, hDrawn] at hCurrent
        exact (Option.some.inj hCurrent).symm
      · rw [hBegin] at hCurrent
        simp only [current, hAccepted] at hCurrent
        cases hCurrent
    · cases hTaken
  · cases hTaken

/- Going over ends the lead of a round that is not being started. -/
theorem leading_of_taken {session other : String} (hTaken : taken params state event = some session)
    (hStarting : state.isStarting = false)
    (hLeading : Leading params.myPubkey other (state.step params event).1) : other = session := by
  unfold taken at hTaken
  split at hTaken
  · rename_i attempt self sender round
    split at hTaken
    · rename_i hYields
      simp only [Negotiation.step, CoordinatorState.step, CoordinatorState.onMessage, hYields,
        if_true, Leading] at hLeading
      rcases hLeading with ⟨-, hYielded | hStarted⟩
      · cases hYielded
      · have hStarting : self.starting = false := hStarting
        rw [hStarting] at hStarted
        cases hStarted
    · cases hTaken
  · split at hTaken
    · rename_i hAccepts
      simp only [Negotiation.step, ParticipantState.step, ParticipantState.onMessage, hAccepts,
        if_true, Leading] at hLeading
    · cases hTaken
  · rename_i attempt candidates drawn expired
    split at hTaken
    · cases hTaken
      simp only [Negotiation.step] at hLeading
      rcases begin_cases params attempt candidates session expired with ⟨error, hBegin⟩ |
        ⟨self, hBegin, -, hDrawn, -⟩ | ⟨self, hBegin, -⟩
      · rw [hBegin] at hLeading
        exact hLeading.elim
      · rw [hBegin] at hLeading
        exact hLeading.1.symm.trans hDrawn
      · rw [hBegin] at hLeading
        exact hLeading.elim
    · cases hTaken
  · cases hTaken

end Taken

/- A live session that a member is committed to was both before, or the peer takes it. -/
theorem committed_live_cases {member session : String} (hSound : Sound pool)
    (hOccurs : pool.Occurs peer event)
    (hCommitted : (pool.act views peer event).Committed member session)
    (hLive : (pool.act views peer event).Live session) :
    pool.Committed member session ∧ pool.Live session ∨
    member = peer ∧ taken (views.paramsOf peer) (pool.nodes peer) event = some session := by
  rcases live_cases hSound hOccurs hLive with hOld | ⟨hTaken, hDrawn⟩
  · rcases committed_cases hSound hCommitted with hBefore | ⟨hMember, hTaken | hDrawn⟩
    · exact Or.inl ⟨hBefore, hOld⟩
    · exact Or.inr ⟨hMember, hTaken⟩
    · have hFresh := Pool.fresh_of_occurs hOccurs hDrawn
      exact absurd hFresh (hSound.not_fresh hOld)
  · have hFresh := Pool.fresh_of_occurs hOccurs hDrawn
    rcases committed_cases hSound hCommitted with hBefore | ⟨hMember, -⟩
    · exact absurd hBefore (Pool.not_committed_of_fresh hFresh)
    · exact Or.inr ⟨hMember, hTaken⟩

/- A session that goes on being live is the one that is taken. -/
theorem eq_of_taken {session other : String} (hSound : Sound pool)
    (hOver : GoesOver views pool peer event)
    (hTaken : taken (views.paramsOf peer) (pool.nodes peer) event = some session)
    (hCommitted : pool.Committed peer other) (hBefore : pool.Live other)
    (hLive : (pool.act views peer event).Live other) : other = session := by
  rcases hOver session hTaken with ⟨hStarting, hGivenUp⟩
  rcases hCommitted with hDrawn | hAcknowledged
  · rcases hLive with ⟨owner, hLeading⟩
    by_cases hOwner : owner = peer
    · rw [hOwner, Pool.nodes_act_self] at hLeading
      exact leading_of_taken hTaken hStarting hLeading
    · rw [Pool.nodes_act_of_ne hOwner] at hLeading
      exact absurd (hSound.unique owner peer other (hSound.drew owner other hLeading) hDrawn) hOwner
  · by_contra hNe
    exact hGivenUp other hNe hAcknowledged hBefore

--- Agreement

/- A peer is committed to one live session at most, the one it is in. -/
structure Agreed (pool : Pool) : Prop where
  one :
    ∀ peer first second,
    pool.Committed peer first → pool.Live first →
      pool.Committed peer second →
      pool.Live second →
      first = second
  within :
    ∀ peer session other,
    current (pool.nodes peer) = some session → pool.Committed peer other →
      pool.Live other →
      other = session

theorem agreed_initial : Agreed (Pool.initial views) := by
  have hNone : ∀ session, ¬ (Pool.initial views).Live session := by
    rintro session ⟨owner, hLeading⟩
    cases sound_initial.drew owner session hLeading
  constructor
  · intro peer first second _ hLive
    exact absurd hLive (hNone first)
  · intro peer session other _ _ hLive
    exact absurd hLive (hNone other)

theorem agreed_act (hSound : Sound pool) (hAgreed : Agreed pool) (hOccurs : pool.Occurs peer event)
    (hOver : GoesOver views pool peer event) : Agreed (pool.act views peer event) := by
  constructor
  · intro member first second hFirst hLive hSecond hLive'
    rcases committed_live_cases hSound hOccurs hFirst hLive with ⟨hOld, hOldLive⟩ |
      ⟨hMember, hTaken⟩
    · rcases committed_live_cases hSound hOccurs hSecond hLive' with ⟨hOld', hOldLive'⟩ |
        ⟨hMember, hTaken⟩
      · exact hAgreed.one member first second hOld hOldLive hOld' hOldLive'
      · rw [hMember] at hOld
        exact eq_of_taken hSound hOver hTaken hOld hOldLive hLive
    · rcases committed_live_cases hSound hOccurs hSecond hLive' with ⟨hOld', hOldLive'⟩ |
        ⟨-, hTaken'⟩
      · rw [hMember] at hOld'
        exact (eq_of_taken hSound hOver hTaken hOld' hOldLive' hLive').symm
      · exact Option.some.inj (hTaken.symm.trans hTaken')
  · intro member session other hCurrent hCommitted hLive
    by_cases hMember : member = peer
    · rw [hMember] at hCurrent hCommitted
      rw [Pool.nodes_act_self] at hCurrent
      rcases committed_live_cases hSound hOccurs hCommitted hLive with ⟨hOld, hOldLive⟩ |
        ⟨-, hTaken⟩
      · cases hTaken : taken (views.paramsOf peer) (pool.nodes peer) event with
        | some next =>
          rw [current_of_taken hTaken hCurrent]
          exact eq_of_taken hSound hOver hTaken hOld hOldLive hLive
        | none =>
          rcases current_of_effect (step_effect _ _ event) hCurrent with hBefore | hNew | hLeading
          · exact hAgreed.within peer session other hBefore hOld hOldLive
          · rw [hTaken] at hNew
            cases hNew
          · exact hAgreed.one peer other session hOld hOldLive
              (Or.inl (hSound.drew peer session hLeading)) ⟨peer, hLeading⟩
      · exact (current_of_taken hTaken hCurrent).symm
    · rw [Pool.nodes_act_of_ne hMember] at hCurrent
      rcases committed_live_cases hSound hOccurs hCommitted hLive with ⟨hOld, hOldLive⟩ | ⟨hPeer, -⟩
      · exact hAgreed.within member session other hCurrent hOld hOldLive
      · exact absurd hPeer hMember

theorem agreed_of_reaches (hReached : Reaches views (GoesOver views) pool) : Agreed pool := by
  have hBoth : Sound pool ∧ Agreed pool := by
    apply Runs.reached_invariant _ _ hReached
    · intro pool hInitial
      rw [hInitial]
      exact ⟨sound_initial, agreed_initial⟩
    · intro pool turn hBoth hAdmitted
      exact ⟨sound_act hBoth.1 hAdmitted.1, agreed_act hBoth.1 hBoth.2 hAdmitted.1 hAdmitted.2⟩
  exact hBoth.2

theorem Pool.Led.live {leader : String} {round : NegotiatedFusionRound}
    (hLed : pool.Led leader round) : pool.Live round.session := by
  refine ⟨leader, ?_⟩
  rw [hLed.1]
  exact ⟨hLed.2, rfl⟩

theorem rounds_apart (hReached : Reaches views (GoesOver views) pool) : RoundsApart pool := by
  have hSound := sound_of_reaches hReached
  have hAgreed := agreed_of_reaches hReached
  constructor
  · intro first second own other hApart hOwn hOther member hFirst hSecond
    have hSame :=
      hAgreed.one member own.session other.session
        (hSound.led first own hOwn.1 hOwn.2 member hFirst) hOwn.live
        (hSound.led second other hOther.1 hOther.2 member hSecond) hOther.live
    have hDrawn : Leading second own.session (pool.nodes second) := by
      rw [hOther.1]
      exact ⟨hOther.2, hSame.symm⟩
    have hDrawn' : Leading first own.session (pool.nodes first) := by
      rw [hOwn.1]
      exact ⟨hOwn.2, rfl⟩
    exact hApart
      (hSound.unique first second own.session (hSound.drew first _ hDrawn')
        (hSound.drew second _ hDrawn))
  · intro leader member round entered hLed hMember hEntered
    apply Eq.symm
    apply hAgreed.within member
    · rw [hEntered]
      rfl
    · exact hSound.led leader round hLed.1 hLed.2 member hMember
    · exact hLed.live

--- Two leaders

def isAckOf (session : String) : RendezvousMessage → Bool
  | .ack acknowledged _ _ _ => acknowledged = session
  | _ => false

def isAck : RendezvousMessage → Bool
  | .ack _ _ _ _ => true
  | _ => false

namespace Pool

def mayOccur (pool : Pool) (peer : String) : RendezvousEvent → Bool
  | .message sender message => (sender, peer, message) ∈ pool.sent
  | .resume session _ => pool.drawn.all (fun draw => draw.2 ≠ session) &&
      pool.sent.all (fun out => !isAckOf session out.2.2)
  | _ => true

/- A peer that takes a session acknowledged none before. -/
def isFirst (views : PoolViews) (pool : Pool) (peer : String) (event : RendezvousEvent) : Bool :=
  (taken (views.paramsOf peer) (pool.nodes peer) event).isNone ||
    !(pool.nodes peer).isStarting && pool.sent.all (fun out => out.1 ≠ peer || !isAck out.2.2)

theorem occurs_of_mayOccur (hMay : pool.mayOccur peer event = true) : pool.Occurs peer event := by
  cases event with
  | message sender message =>
    simp only [mayOccur, decide_eq_true_eq] at hMay
    exact hMay
  | resume session expired =>
    unfold mayOccur at hMay
    simp only [Bool.and_eq_true, List.all_eq_true] at hMay
    rcases hMay with ⟨hDrawn, hSent⟩
    constructor
    · intro owner hMem
      exact of_decide_eq_true (hDrawn _ hMem) rfl
    · intro sender receiver network tier epoch hMem
      have hOther := hSent _ hMem
      simp [isAckOf] at hOther
  | _ => trivial

theorem goesOver_of_isFirst (hFirst : pool.isFirst views peer event = true) :
    GoesOver views pool peer event := by
  intro session hTaken
  unfold isFirst at hFirst
  rw [hTaken] at hFirst
  simp only
    [Option.isNone_some, Bool.false_or, Bool.and_eq_true, Bool.not_eq_true', List.all_eq_true]
    at hFirst
  rcases hFirst with ⟨hStarting, hNone⟩
  refine ⟨hStarting, ?_⟩
  rintro other - ⟨receiver, network, tier, epoch, hMem⟩
  have hNot := hNone _ hMem
  simp [isAck] at hNot

end Pool

theorem sampleViews_min_le_max : 3 ≤ 10 := by
  decide

theorem sampleViews_max_le : 10 ≤ 20 := by
  decide

/- Two leaders that do not see each other, and two peers that they both see. -/
def sampleViews : PoolViews :=
  { candidates := fun peer =>
      if peer = sampleKey '9' then [sampleKey 'b', sampleKey 'e']
      else [sampleKey 'a', sampleKey 'b', sampleKey 'e']
    epoch := fun _ => 7
    network := "mainnet"
    tier := 100000
    knobs :=
      { minSafePlayers := 3
        maxPlayers := 10
        three_le := le_refl 3
        min_le_max := sampleViews_min_le_max
        max_le := sampleViews_max_le } }

/- A leader proposes, the two peers acknowledge, and the leader starts. -/
def sampleScript (leader session : Char) : List PoolEvent :=
  let me := sampleViews.paramsOf (sampleKey leader)
  let offer : RendezvousEvent :=
    .message (sampleKey leader)
      (.proposal (me.roundOf (sampleKey session) [sampleKey leader, sampleKey 'b', sampleKey 'e']))
  let answer : RendezvousMessage := me.ackOf (sampleKey session)
  [(sampleKey leader, .resume (sampleKey session) false), (sampleKey leader, .repropose),
    (sampleKey 'b', offer), (sampleKey 'e', offer),
    (sampleKey leader, .message (sampleKey 'b') answer),
    (sampleKey leader, .message (sampleKey 'e') answer), (sampleKey leader, .settle),
    (sampleKey leader, .startsSent)]

def sampleJoins : List PoolEvent :=
  [(sampleKey 'b', .resume (sampleKey '1') false), (sampleKey 'e', .resume (sampleKey '2') false)]

def sampleRound (leader session : Char) : NegotiatedFusionRound :=
  { session := sampleKey session
    coordinator := sampleKey leader
    participants := [sampleKey leader, sampleKey 'b', sampleKey 'e']
    network := "mainnet"
    tier := 100000
    epoch := 7 }

theorem rounds_apart_sample :
    ∃ pool, pool.Led (sampleKey 'a') (sampleRound 'a' '0') ∧ RoundsApart pool := by
  let script := sampleJoins ++ sampleScript 'a' '0'
  have hReached :
      Reaches sampleViews (GoesOver sampleViews)
        (script.foldl (Pool.step sampleViews) (Pool.initial sampleViews)) := by
    apply Runs.reached_foldl
      (fun pool turn => pool.mayOccur turn.1 turn.2 && pool.isFirst sampleViews turn.1 turn.2)
    · intro pool turn hMay
      rw [Bool.and_eq_true] at hMay
      exact ⟨Pool.occurs_of_mayOccur hMay.1, Pool.goesOver_of_isFirst hMay.2⟩
    · exact .first rfl
    · decide +kernel
  refine ⟨_, ⟨?_, rfl⟩, rounds_apart hReached⟩
  decide +kernel

/- Both peers acknowledge one leader and then the other one, and both leaders start. -/
theorem rounds_overlap :
    ¬ ∀ (views : PoolViews) (pool : Pool), Reaches views (fun _ _ _ => True) pool → RoundsApart
      pool := by
  intro hAll
  let script := sampleJoins ++ sampleScript 'a' '0' ++ sampleScript '9' '3'
  have hReached :
      Reaches sampleViews (fun _ _ _ => True)
        (script.foldl (Pool.step sampleViews) (Pool.initial sampleViews)) := by
    apply Runs.reached_foldl (fun pool turn => pool.mayOccur turn.1 turn.2)
    · intro pool turn hMay
      exact ⟨Pool.occurs_of_mayOccur hMay, trivial⟩
    · exact .first rfl
    · decide +kernel
  have hFirst :
      (script.foldl (Pool.step sampleViews) (Pool.initial sampleViews)).Led (sampleKey 'a')
        (sampleRound 'a' '0') :=
    ⟨by decide +kernel, rfl⟩
  have hSecond :
      (script.foldl (Pool.step sampleViews) (Pool.initial sampleViews)).Led (sampleKey '9')
        (sampleRound '9' '3') :=
    ⟨by decide +kernel, rfl⟩
  have hDisjoint := (hAll _ _ hReached).disjoint _ _ _ _ (by decide +kernel) hFirst hSecond
  exact hDisjoint (List.mem_cons_of_mem _ (List.mem_cons_self))
    (List.mem_cons_of_mem _ (List.mem_cons_self))

end OptnWallet.Nostr
