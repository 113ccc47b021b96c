import OptnWallet.Nostr.Rendezvous.Pool

/-
  What holds of every run of a pool: a session has one owner, which draws it before it leads it,
  and whoever is counted for it or holds it is committed to it.

  Main declarations:
    * `Nostr.Sound`
    * `Nostr.sound_act`
    * `Nostr.sound_of_reaches`
-/

--- Soundness

namespace OptnWallet.Nostr

variable {views : PoolViews} {pool : Pool} {peer : String} {event : RendezvousEvent}

namespace Pool

theorem nodes_act_self :
    (pool.act views peer event).nodes peer =
      ((pool.nodes peer).step (views.paramsOf peer) event).1 := Function.update_self _ _ _

theorem nodes_act_of_ne {other : String} (hOther : other ≠ peer) :
    (pool.act views peer event).nodes other = pool.nodes other := Function.update_of_ne hOther _ _

theorem mem_sent_act {sender receiver : String} {message : RendezvousMessage} :
    (sender, receiver, message) ∈ (pool.act views peer event).sent ↔
    (sender, receiver, message) ∈ pool.sent ∨ sender = peer ∧
        (receiver, message) ∈ ((pool.nodes peer).step (views.paramsOf peer) event).2 := by
  unfold act place
  simp only [List.mem_append, List.mem_map, Prod.mk.injEq, Prod.exists]
  constructor
  · rintro (hOld | ⟨_, _, hMem, rfl, rfl, rfl⟩)
    · exact Or.inl hOld
    · exact Or.inr ⟨rfl, hMem⟩
  · rintro (hOld | ⟨rfl, hMem⟩)
    · exact Or.inl hOld
    · exact Or.inr ⟨_, _, hMem, rfl, rfl, rfl⟩

variable {session : String}

theorem mem_drawn_act {owner : String} :
    (owner, session) ∈ (pool.act views peer event).drawn ↔
    (owner, session) ∈ pool.drawn ∨ owner = peer ∧ session ∈ drawnBy event := by
  unfold act place
  simp only [List.mem_append, List.mem_map, Prod.mk.injEq]
  constructor
  · rintro (hOld | ⟨_, hMem, rfl, rfl⟩)
    · exact Or.inl hOld
    · exact Or.inr ⟨rfl, hMem⟩
  · rintro (hOld | ⟨rfl, hMem⟩)
    · exact Or.inl hOld
    · exact Or.inr ⟨_, hMem, rfl, rfl⟩

theorem committed_act {member : String} (hCommitted : pool.Committed member session) :
    (pool.act views peer event).Committed member session := by
  rcases hCommitted with hDrawn | ⟨receiver, network, tier, epoch, hSent⟩
  · exact Or.inl (mem_drawn_act.mpr (Or.inl hDrawn))
  · exact Or.inr ⟨receiver, network, tier, epoch, mem_sent_act.mpr (Or.inl hSent)⟩

theorem fresh_of_occurs (hOccurs : pool.Occurs peer event) (hDrawn : session ∈ drawnBy event) :
    pool.Fresh session := by
  cases event with
  | resume drawn expired =>
    rw [List.mem_singleton.mp hDrawn]
    exact hOccurs
  | _ => cases hDrawn

theorem not_committed_of_fresh {member : String} (hFresh : pool.Fresh session) :
    ¬ pool.Committed member session := by
  rintro (hDrawn | ⟨receiver, network, tier, epoch, hSent⟩)
  · exact hFresh.1 member hDrawn
  · exact hFresh.2 member receiver network tier epoch hSent

end Pool

/- What holds of any run: sessions have one owner, who leads has drawn the session, and who is
   counted is committed. -/
structure Sound (pool : Pool) : Prop where
  unique :
    ∀ first second session,
    (first, session) ∈ pool.drawn → (second, session) ∈ pool.drawn → first = second
  drew : ∀ peer session, Leading peer session (pool.nodes peer) → (peer, session) ∈ pool.drawn
  heard :
    ∀ peer attempt self,
    pool.nodes peer = .coordinating attempt self →
      ∀ other ∈ self.acknowledgments, pool.Committed other self.session
  led :
    ∀ peer round,
    pool.nodes peer = .resolved round → round.coordinator = peer →
      ∀ other ∈ round.participants, pool.Committed other round.session
  foreign : ∀ peer round, (peer, peer, .start round) ∉ pool.sent
  holds : ∀ peer session, current (pool.nodes peer) = some session → pool.Committed peer session

theorem Sound.foreign_of_occurs (hSound : Sound pool) (hOccurs : pool.Occurs peer event)
    (round : RoundProposal) : event ≠ .message peer (.start round) := by
  intro hEvent
  rw [hEvent] at hOccurs
  exact hSound.foreign peer round hOccurs

variable {session : String}

theorem Sound.not_fresh (hSound : Sound pool) (hLive : pool.Live session) :
    ¬ pool.Fresh session := by
  intro hFresh
  rcases hLive with ⟨owner, hLeading⟩
  exact hFresh.1 owner (hSound.drew owner session hLeading)

/- A session that is taken is acknowledged or drawn. -/
theorem acknowledges_of_taken {params : FusionRendezvousParams} {state : Negotiation}
    (hTaken : taken params state event = some session) :
    (∃ receiver network tier epoch,
        (receiver, .ack session network tier epoch) ∈ (state.step params event).2) ∨
    session ∈ drawnBy event := by
  unfold taken at hTaken
  split at hTaken
  · rename_i attempt self sender round
    split at hTaken
    · rename_i hYields
      cases hTaken
      left
      refine ⟨sender, params.network, params.tier, params.epoch, ?_⟩
      simp only
        [Negotiation.step, CoordinatorState.step, CoordinatorState.onMessage, hYields, if_true]
      exact List.mem_singleton.mpr rfl
    · cases hTaken
  · rename_i attempt self sender round
    split at hTaken
    · rename_i hAccepts
      cases hTaken
      left
      refine ⟨sender, params.network, params.tier, params.epoch, ?_⟩
      simp only
        [Negotiation.step, ParticipantState.step, ParticipantState.onMessage, hAccepts, if_true]
      exact List.mem_singleton.mpr rfl
    · cases hTaken
  · split at hTaken
    · cases hTaken
      exact Or.inr (List.mem_singleton.mpr rfl)
    · cases hTaken
  · cases hTaken

theorem committed_of_taken
    (hTaken : taken (views.paramsOf peer) (pool.nodes peer) event = some session) :
    (pool.act views peer event).Committed peer session := by
  rcases acknowledges_of_taken hTaken with ⟨receiver, network, tier, epoch, hMem⟩ | hDrawn
  · exact Or.inr ⟨receiver, network, tier, epoch, Pool.mem_sent_act.mpr (Or.inr ⟨rfl, hMem⟩)⟩
  · exact Or.inl (Pool.mem_drawn_act.mpr (Or.inr ⟨rfl, hDrawn⟩))

/- A peer commits itself to what it takes or draws. -/
theorem committed_cases {member : String} (hSound : Sound pool)
    (hCommitted : (pool.act views peer event).Committed member session) :
    pool.Committed member session ∨
    member = peer ∧ (taken (views.paramsOf peer) (pool.nodes peer) event = some session ∨
        session ∈ drawnBy event) := by
  rcases hCommitted with hDrawn | ⟨receiver, network, tier, epoch, hSent⟩
  · rcases Pool.mem_drawn_act.mp hDrawn with hOld | ⟨hMember, hNew⟩
    · exact Or.inl (Or.inl hOld)
    · exact Or.inr ⟨hMember, Or.inr hNew⟩
  · rcases Pool.mem_sent_act.mp hSent with hOld | ⟨hMember, hNew⟩
    · exact Or.inl (Or.inr ⟨receiver, network, tier, epoch, hOld⟩)
    · rcases acknowledges_of_effect (step_effect _ _ event) hNew with hTaken | hCurrent
      · exact Or.inr ⟨hMember, Or.inl hTaken⟩
      · left
        rw [hMember]
        exact hSound.holds peer session hCurrent

theorem live_cases (hSound : Sound pool) (hOccurs : pool.Occurs peer event)
    (hLive : (pool.act views peer event).Live session) :
    pool.Live session ∨
    taken (views.paramsOf peer) (pool.nodes peer) event = some session ∧
      session ∈ drawnBy event := by
  rcases hLive with ⟨owner, hLeading⟩
  by_cases hOwner : owner = peer
  · rw [hOwner, Pool.nodes_act_self] at hLeading
    rcases leading_of_effect (step_effect (views.paramsOf peer) (pool.nodes peer) event)
      (hSound.foreign_of_occurs hOccurs) hLeading with hOld | hNew
    · exact Or.inl ⟨peer, hOld⟩
    · exact Or.inr hNew
  · rw [Pool.nodes_act_of_ne hOwner] at hLeading
    exact Or.inl ⟨owner, hLeading⟩

theorem initial_cases (views : PoolViews) (peer : String) :
    (∃ candidates, (Pool.initial views).nodes peer = .pausing 0 candidates) ∨
    ∃ error, (Pool.initial views).nodes peer = .rejected error := by
  unfold Pool.initial idle
  dsimp only
  split
  · exact Or.inl ⟨_, rfl⟩
  · exact Or.inr ⟨_, rfl⟩

theorem sound_initial : Sound (Pool.initial views) := by
  constructor
  · intro first second session hMem
    cases hMem
  · intro peer session hLeading
    rcases initial_cases views peer with ⟨candidates, hState⟩ | ⟨error, hState⟩
    · rw [hState] at hLeading
      exact hLeading.elim
    · rw [hState] at hLeading
      exact hLeading.elim
  · intro peer attempt self hNode
    rcases initial_cases views peer with ⟨candidates, hState⟩ | ⟨error, hState⟩
    · rw [hState] at hNode
      cases hNode
    · rw [hState] at hNode
      cases hNode
  · intro peer round hNode
    rcases initial_cases views peer with ⟨candidates, hState⟩ | ⟨error, hState⟩
    · rw [hState] at hNode
      cases hNode
    · rw [hState] at hNode
      cases hNode
  · intro peer round hMem
    cases hMem
  · intro peer session hCurrent
    rcases initial_cases views peer with ⟨candidates, hState⟩ | ⟨error, hState⟩
    · rw [hState] at hCurrent
      cases hCurrent
    · rw [hState] at hCurrent
      cases hCurrent

theorem sound_act (hSound : Sound pool) (hOccurs : pool.Occurs peer event) :
    Sound (pool.act views peer event) := by
  have hEffect := step_effect (views.paramsOf peer) (pool.nodes peer) event
  have hForeign := hSound.foreign_of_occurs hOccurs
  constructor
  · intro first second session hFirst hSecond
    rcases Pool.mem_drawn_act.mp hFirst with hFirst | ⟨hFirst, hDrawn⟩
    · rcases Pool.mem_drawn_act.mp hSecond with hSecond | ⟨hSecond, hDrawn⟩
      · exact hSound.unique first second session hFirst hSecond
      · have hFresh := Pool.fresh_of_occurs hOccurs hDrawn
        exact absurd hFirst (hFresh.1 first)
    · rcases Pool.mem_drawn_act.mp hSecond with hSecond | ⟨hSecond, -⟩
      · have hFresh := Pool.fresh_of_occurs hOccurs hDrawn
        exact absurd hSecond (hFresh.1 second)
      · exact hFirst.trans hSecond.symm
  · intro owner session hLeading
    by_cases hOwner : owner = peer
    · rw [hOwner, Pool.nodes_act_self] at hLeading
      rw [hOwner]
      rcases leading_of_effect hEffect hForeign hLeading with hOld | ⟨-, hNew⟩
      · exact Pool.mem_drawn_act.mpr (Or.inl (hSound.drew peer session hOld))
      · exact Pool.mem_drawn_act.mpr (Or.inr ⟨rfl, hNew⟩)
    · rw [Pool.nodes_act_of_ne hOwner] at hLeading
      exact Pool.mem_drawn_act.mpr (Or.inl (hSound.drew owner session hLeading))
  · intro owner attempt self hNode other hMem
    by_cases hOwner : owner = peer
    · rw [hOwner, Pool.nodes_act_self] at hNode
      rw [hNode] at hEffect
      rcases heard_of_effect hEffect hMem with ⟨before, hBefore, hSession, hOld⟩ |
        ⟨network, tier, epoch, hEvent⟩ | ⟨hMe, hDrawn⟩
      · rw [← hSession]
        exact Pool.committed_act (hSound.heard peer _ before hBefore other hOld)
      · rw [hEvent] at hOccurs
        apply Pool.committed_act
        exact Or.inr ⟨peer, network, tier, epoch, hOccurs⟩
      · exact Or.inl (Pool.mem_drawn_act.mpr (Or.inr ⟨hMe, hDrawn⟩))
    · rw [Pool.nodes_act_of_ne hOwner] at hNode
      exact Pool.committed_act (hSound.heard owner attempt self hNode other hMem)
  · intro owner round hNode hOwn other hMem
    by_cases hOwner : owner = peer
    · rw [hOwner, Pool.nodes_act_self] at hNode
      rw [hOwner] at hOwn
      rw [hNode] at hEffect
      rcases led_of_effect hEffect hForeign hOwn with hOld | ⟨attempt, self, hState, hSession, hAll⟩
      · exact Pool.committed_act (hSound.led peer round hOld hOwn other hMem)
      · rw [hSession]
        exact Pool.committed_act (hSound.heard peer attempt self hState other (hAll other hMem))
    · rw [Pool.nodes_act_of_ne hOwner] at hNode
      exact Pool.committed_act (hSound.led owner round hNode hOwn other hMem)
  · intro owner round hMem
    rcases Pool.mem_sent_act.mp hMem with hOld | ⟨hOwner, hNew⟩
    · exact hSound.foreign owner round hOld
    · exact starts_of_effect hEffect hNew hOwner
  · intro member session hCurrent
    by_cases hMember : member = peer
    · rw [hMember, Pool.nodes_act_self] at hCurrent
      rw [hMember]
      rcases current_of_effect hEffect hCurrent with hOld | hTaken | hLeading
      · exact Pool.committed_act (hSound.holds peer session hOld)
      · exact committed_of_taken hTaken
      · exact Pool.committed_act (Or.inl (hSound.drew peer session hLeading))
    · rw [Pool.nodes_act_of_ne hMember] at hCurrent
      exact Pool.committed_act (hSound.holds member session hCurrent)

theorem sound_of_reaches {Admits : Pool → String → RendezvousEvent → Prop}
    (hReached : Reaches views Admits pool) : Sound pool := by
  apply Runs.reached_invariant _ _ hReached
  · intro pool hInitial
    rw [hInitial]
    exact sound_initial
  · intro pool turn hSound hAdmitted
    exact sound_act hSound hAdmitted.1

end OptnWallet.Nostr
